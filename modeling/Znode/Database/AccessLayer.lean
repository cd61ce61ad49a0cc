import Mathlib
import Znode.Lib.Simulation
import Znode.Core.ChainConfig
import Znode.Database.Transactions

/-!
# The configuration table

The table `Config` holds the version of the schema, as three numbers of four bytes, and the configuration of the chain,
as the text of a JSON value.

* `Version` : versions, in the order of the defaulted `operator<=>`;
* `writeConfigValue`, `readConfigValue`, `writeSchemaVersion`, `readSchemaVersion`, `writeChainConfig`,
  `readChainConfig` : the calls of `access_layer.cpp`;
* `JsonText` : what is assumed of `dump` and `parse`; `JsonText.printed` meets it;
* `schema_versions_refine` : along any run with commits and transactions that are given up, a version is refused
  exactly when it is lower than the one the transaction sees, and the version on disk never goes down.
-/

namespace Znode.Database
open Znode.Lib Znode.Core

/-! ## Versions -/

structure Version where
  major : UInt32 := 0
  minor : UInt32 := 0
  patch : UInt32 := 0
deriving DecidableEq, Repr

namespace Version

/-- The members in the order in which they are compared. -/
def key (v : Version) : ℕ ×ₗ ℕ ×ₗ ℕ := toLex (v.major.toNat, toLex (v.minor.toNat, v.patch.toNat))

theorem key_injective : Function.Injective key := by
  intro v v' h
  have hpair := Prod.ext_iff.mp (toLex.injective h)
  have hrest := Prod.ext_iff.mp (toLex.injective hpair.2)
  cases v
  cases v'
  rw [Version.mk.injEq]
  exact ⟨UInt32.toNat_inj.mp hpair.1, UInt32.toNat_inj.mp hrest.1, UInt32.toNat_inj.mp hrest.2⟩

instance : LinearOrder Version := LinearOrder.lift' key key_injective

def toText (v : Version) : Bytes :=
  decimal v.major.toNat ++ ascii "." ++ decimal v.minor.toNat ++ ascii "." ++ decimal v.patch.toNat

def toBytes (v : Version) : Bytes := beBytes 4 v.major.toNat ++ (beBytes 4 v.minor.toNat ++ beBytes 4 v.patch.toNat)

/-- `endian::load_big_u32(&data[offset])`. -/
def load (data : Bytes) (offset : Nat) : UInt32 := UInt32.ofNat (beVal (slice data offset 4))

def ofBytes (data : Bytes) : Version := { major := load data 0, minor := load data 4, patch := load data 8 }

theorem length_toBytes (v : Version) : v.toBytes.length = 12 := by
  simp [toBytes]

theorem load_beBytes (n : UInt32) {data : Bytes} {offset : Nat} (h : slice data offset 4 = beBytes 4 n.toNat) :
    load data offset = n := by
  rw [load, h, beVal_beBytes n.toNat_lt, UInt32.ofNat_toNat]

@[simp] theorem ofBytes_toBytes (v : Version) : ofBytes v.toBytes = v := by
  obtain ⟨major, minor, patch⟩ := v
  unfold ofBytes
  congr 1
  · exact load_beBytes major (by simp [slice, toBytes])
  · exact load_beBytes minor (by simp [slice, toBytes])
  · refine load_beBytes patch ?_
    rw [toBytes, slice_append_right (by simp), slice_append_right (by simp)]
    simp [slice]

end Version

/-! ## The calls -/

/-- How the process ends in a call. -/
inductive Abort where
  /-- An `ASSERT` fails. -/
  | assertion
  /-- An exception leaves a function that is `noexcept`. -/
  | terminate
  | undefined
deriving DecidableEq, Repr

def kMainNetConfig : ChainConfig :=
  { identifier := 1, magic := ⟨[0x63, 0x61, 0x73, 0x68], rfl⟩, defaultPort := 9033, sealEngineType := .kEquihash }

def kTestNetConfig : ChainConfig :=
  { identifier := 2, magic := ⟨[0xbf, 0xf2, 0xcd, 0xe6], rfl⟩, defaultPort := 19033, sealEngineType := .kEquihash }

def kRegTestConfig : ChainConfig :=
  { identifier := 3, magic := ⟨[0x2f, 0x54, 0xcc, 0x9d], rfl⟩, defaultPort := 19133, sealEngineType := .kEquihash }

def knownChains : List (Bytes × ChainConfig) :=
  [(ascii "mainnet", kMainNetConfig), (ascii "testnet", kTestNetConfig), (ascii "regtest", kRegTestConfig)]

/-- The text of JSON values: `parse` reads back what the code writes with `dump`, a value for one of the known
chains. -/
structure JsonText where
  dump : Json → Bytes
  parse : Bytes → Json
  parse_dump : ∀ (braces : BraceInit), ∀ chain ∈ knownChains,
    parse (dump (braces.apply (chain.2.jsonOf chain.1))) = braces.apply (chain.2.jsonOf chain.1)

namespace JsonText

mutual

def print : Json → Bytes
  | .null => ascii "null"
  | .boolean value => ascii (if value then "true" else "false")
  | .numberInteger value => decimalInt value
  | .numberUnsigned value => decimal value
  | .numberFloat integral => decimalInt (integral.getD 0) ++ ascii ".0"
  | .string value => ascii "\"" ++ value ++ ascii "\""
  | .array elements => ascii "[" ++ printElements elements ++ ascii "]"
  | .object members => ascii "\x7b" ++ printMembers members ++ ascii "\x7d"
  | .binary bytes => bytes
  | .discarded => ascii "<discarded>"

def printElements : List Json → Bytes
  | [] => []
  | [j] => print j
  | j :: elements => print j ++ ascii "," ++ printElements elements

def printMembers : List (Bytes × Json) → Bytes
  | [] => []
  | [(key, j)] => ascii "\"" ++ key ++ ascii "\":" ++ print j
  | (key, j) :: members => ascii "\"" ++ key ++ ascii "\":" ++ print j ++ ascii "," ++ printMembers members

end

/-- The values that are written for the known chains. -/
def written : List Json :=
  [BraceInit.copy, .list].flatMap fun braces => knownChains.map fun chain => braces.apply (chain.2.jsonOf chain.1)

/-- What is assumed of the texts can be met. -/
def printed : JsonText where
  dump := print
  parse text := (written.find? fun j => print j = text).getD .discarded
  parse_dump := by
    intro braces chain hchain
    simp only [knownChains, List.mem_cons, List.not_mem_nil, or_false] at hchain
    cases braces <;> rcases hchain with rfl | rfl | rfl <;> rfl

end JsonText

def kConfig : Bytes := ascii "Config"

def kConfigChainKey : Bytes := ascii "chain"

def kDbSchemaVersionKey : Bytes := ascii "DbSchemaVersion"

abbrev TxnCall := Act Exception Abort Txn

def writeConfigValue (key value : Bytes) : TxnCall Unit := do
  if (← get).readonly then pure ()
  else
    openMap kConfig
    upsert kConfig key value

def readConfigValue (key : Bytes) : TxnCall (Option Bytes) := do
  openMap kConfig
  find kConfig key

/-- What `read_schema_version` makes of the value it finds. -/
def decodeVersion (data : Bytes) : TxnCall (Option Version) := do
  Act.require .assertion (data.length = 12)
  return some (Version.ofBytes data)

def readSchemaVersion : TxnCall (Option Version) := do
  let data ← readConfigValue kDbSchemaVersionKey
  data.elim (pure none) decodeVersion

def writeSchemaVersion (version : Version) : TxnCall Unit := do
  if (← get).readonly then pure ()
  else
    let prevVersion ← readSchemaVersion
    if prevVersion = some version then pure ()
    else if prevVersion.any fun prev => version < prev then
      throw (.invalidArgument (ascii "New version LT previous version"))
    else writeConfigValue kDbSchemaVersionKey version.toBytes

/-- `to_json` and `from_json` are `noexcept`. -/
def ofJson {α : Type} : Except JsonFault α → TxnCall α
  | .ok a => pure a
  | .error .exception => Act.raise .terminate
  | .error .undefined => Act.raise .undefined

def readChainConfig (text : JsonText) (braces : BraceInit) : TxnCall (Option ChainConfig) := do
  let data ← readConfigValue kConfigChainKey
  data.elim (pure none) fun data => ofJson (ChainConfig.fromJson braces (text.parse data))

/-- `auto json{config.to_json()}` is written with braces. -/
def writeChainConfig (text : JsonText) (braces : BraceInit) (config : ChainConfig) : TxnCall Unit := do
  if (← get).readonly then pure ()
  else
    let json ← ofJson config.toJson
    writeConfigValue kConfigChainKey (text.dump (braces.apply json))

/-! ## What the calls do -/

section Runs
variable {txn : Txn}

theorem run_writeConfigValue (h : txn.readonly = false) (key value : Bytes) :
    (writeConfigValue key value).run txn = .ok () ((txn.opened kConfig).write kConfig key value) := by
  rw [writeConfigValue, Act.run_bind, Act.run_get]
  simp only [h, Bool.false_eq_true, if_false]
  rw [Act.run_bind, run_openMap (Or.inl h)]
  exact run_upsert ((Txn.readonly_opened txn kConfig).trans h) key value

theorem run_readConfigValue (h : txn.readonly = false ∨ txn.Has kConfig) (key : Bytes) :
    (readConfigValue key).run txn = .ok (txn.value kConfig key) (txn.opened kConfig) := by
  rw [readConfigValue, Act.run_bind, run_openMap h]
  change (find kConfig key).run _ = _
  rw [run_find, Txn.value_opened]

def Txn.StoresVersion (txn : Txn) (version : Option Version) : Prop :=
  txn.value kConfig kDbSchemaVersionKey = version.map Version.toBytes

theorem run_readSchemaVersion {version : Option Version} (h : txn.readonly = false ∨ txn.Has kConfig)
    (hversion : txn.StoresVersion version) : readSchemaVersion.run txn = .ok version (txn.opened kConfig) := by
  rw [readSchemaVersion, Act.run_bind, run_readConfigValue h, hversion]
  cases version with
  | none => rfl
  | some version =>
      change (decodeVersion version.toBytes).run _ = _
      rw [decodeVersion, Act.run_bind, Act.run_require, if_pos (by simp [Version.length_toBytes])]
      simp only [Version.ofBytes_toBytes, Act.run_pure]

theorem run_writeSchemaVersion {stored : Option Version} (h : txn.readonly = false) (hstored : txn.StoresVersion stored)
    (version : Version) : ∃ txn', txn'.readonly = false ∧ (∀ name, txn.Has name → txn'.Has name) ∧
      if stored.any fun prev => version < prev then
        (writeSchemaVersion version).run txn =
          .error (.invalidArgument (ascii "New version LT previous version")) txn' ∧ txn'.StoresVersion stored
      else (writeSchemaVersion version).run txn = .ok () txn' ∧ txn'.StoresVersion (some version) := by
  have hopened : (txn.opened kConfig).readonly = false := (Txn.readonly_opened txn kConfig).trans h
  have hkept : (txn.opened kConfig).StoresVersion stored := (Txn.value_opened ..).trans hstored
  have hhas : ∀ name, txn.Has name → (txn.opened kConfig).Has name := fun name hname =>
    (Txn.has_opened ..).mpr (Or.inr hname)
  have hrun : (writeSchemaVersion version).run txn =
      (if stored = some version then pure ()
        else if stored.any fun prev => version < prev then
          throw (.invalidArgument (ascii "New version LT previous version"))
        else writeConfigValue kDbSchemaVersionKey version.toBytes : TxnCall Unit).run (txn.opened kConfig) := by
    rw [writeSchemaVersion, Act.run_bind, Act.run_get]
    simp only [h, Bool.false_eq_true, if_false]
    rw [Act.run_bind, run_readSchemaVersion (Or.inl h) hstored]
  rw [hrun]
  by_cases hlower : stored.any fun prev => version < prev
  · refine ⟨txn.opened kConfig, hopened, hhas, ?_⟩
    have hne : stored ≠ some version := by
      rintro rfl
      simp at hlower
    rw [if_pos hlower, if_neg hne, if_pos hlower]
    exact ⟨rfl, hkept⟩
  · by_cases hsame : stored = some version
    · refine ⟨txn.opened kConfig, hopened, hhas, ?_⟩
      rw [if_neg hlower, if_pos hsame]
      exact ⟨rfl, hsame ▸ hkept⟩
    · refine ⟨((txn.opened kConfig).opened kConfig).write kConfig kDbSchemaVersionKey version.toBytes, ?_, ?_, ?_⟩
      · rw [Txn.readonly_write, Txn.readonly_opened, hopened]
      · intro name hname
        exact (Txn.has_write ..).mpr (Or.inr ((Txn.has_opened ..).mpr (Or.inr (hhas name hname))))
      · rw [if_neg hlower, if_neg hsame, if_neg hlower, run_writeConfigValue hopened]
        refine ⟨rfl, ?_⟩
        rw [Txn.StoresVersion, Txn.value_write, if_pos ⟨rfl, rfl⟩]
        rfl

theorem storesVersion_writeConfigValue {stored : Option Version} (h : txn.readonly = false)
    (hstored : txn.StoresVersion stored) {key : Bytes} (hkey : key ≠ kDbSchemaVersionKey) (value : Bytes) :
    ∃ txn', (writeConfigValue key value).run txn = .ok () txn' ∧ txn'.readonly = false ∧ txn'.StoresVersion stored ∧
      txn'.Has kConfig := by
  refine ⟨_, run_writeConfigValue h key value, ?_, ?_, ?_⟩
  · rw [Txn.readonly_write, Txn.readonly_opened, h]
  · rw [Txn.StoresVersion, Txn.value_write, if_neg fun heq => hkey heq.2.symm, Txn.value_opened]
    exact hstored
  · exact (Txn.has_write ..).mpr (Or.inl rfl)

end Runs

/-! ## The version of the schema, along a run -/

inductive VersionEvent where
  | writeSchemaVersion (version : Version)
  /-- A value with another key than the version. -/
  | writeConfigValue (key value : Bytes) (other : key ≠ kDbSchemaVersionKey)
  /-- By a transaction that begins now, and only reads. -/
  | readSchemaVersion
  | commit (txn : RWTxn)
  | rollback

/-- The answers are versions, where one is read. -/
def Session.versionStep (s : Session) : VersionEvent → Answer (Option (Option Version)) × Session
  | .writeSchemaVersion version =>
    let outcome := (Database.writeSchemaVersion version).run s.txn
    (.ofOutcome (fun _ => none) outcome, { s with txn := outcome.state })
  | .writeConfigValue key value _ =>
    let outcome := (Database.writeConfigValue key value).run s.txn
    (.ofOutcome (fun _ => none) outcome, { s with txn := outcome.state })
  | .readSchemaVersion => (.ofOutcome some (Database.readSchemaVersion.run s.env.startRead), s)
  | .commit txn => (.value none, s.commit txn)
  | .rollback => (.value none, s.rollback)

/-- What the calls are for: a version on disk, and one in the transaction, which only goes up. -/
structure Versions where
  durable : Option Version := none
  working : Option Version := none

def Versions.step (v : Versions) : VersionEvent → Answer (Option (Option Version)) × Versions
  | .writeSchemaVersion version =>
    if v.working.any fun prev => version < prev then
      (.error (.invalidArgument (ascii "New version LT previous version")), v)
    else (.value none, { v with working := some version })
  | .writeConfigValue _ _ _ => (.value none, v)
  | .readSchemaVersion => (.value (some v.durable), v)
  | .commit .managed => (.value none, { v with durable := v.working })
  | .commit .external => (.value none, v)
  | .rollback => (.value none, { v with working := v.durable })

/-- The table exists, and holds the versions. -/
structure Session.Versioned (s : Session) (v : Versions) : Prop where
  writes : s.txn.readonly = false
  deployed : s.env.startRead.Has kConfig
  present : s.txn.Has kConfig
  durable : s.env.startRead.StoresVersion v.durable
  working : s.txn.StoresVersion v.working

theorem versionStep_versioned {s : Session} {v : Versions} (hs : s.Versioned v) (e : VersionEvent) :
    (s.versionStep e).1 = (v.step e).1 ∧ (s.versionStep e).2.Versioned (v.step e).2 := by
  cases e with
  | writeSchemaVersion version =>
      obtain ⟨txn', hread, hhas, hrun⟩ := run_writeSchemaVersion hs.writes hs.working version
      by_cases hlower : v.working.any fun prev => version < prev
      · rw [if_pos hlower] at hrun
        simp only [Session.versionStep, Versions.step, if_pos hlower, hrun.1]
        exact ⟨rfl, hread, hs.deployed, hhas _ hs.present, hs.durable, hrun.2⟩
      · rw [if_neg hlower] at hrun
        simp only [Session.versionStep, Versions.step, if_neg hlower, hrun.1]
        exact ⟨rfl, hread, hs.deployed, hhas _ hs.present, hs.durable, hrun.2⟩
  | writeConfigValue key value hkey =>
      obtain ⟨txn', hrun, hread, hstored, hhas⟩ := storesVersion_writeConfigValue hs.writes hs.working hkey value
      simp only [Session.versionStep, Versions.step, hrun]
      exact ⟨rfl, hread, hs.deployed, hhas, hs.durable, hstored⟩
  | readSchemaVersion =>
      simp only [Session.versionStep, Versions.step, run_readSchemaVersion (Or.inr hs.deployed) hs.durable]
      exact ⟨rfl, hs⟩
  | commit txn =>
      cases txn with
      | managed => exact ⟨rfl, rfl, hs.present, hs.present, hs.working, hs.working⟩
      | external => exact ⟨rfl, hs⟩
  | rollback => exact ⟨rfl, rfl, hs.deployed, hs.deployed, hs.durable, hs.durable⟩

/-- One version is there and not higher than the other, or there was none. -/
def NotBelow (old new : Option Version) : Prop := ∀ v ∈ old, ∃ v' ∈ new, v ≤ v'

theorem NotBelow.refl (v : Option Version) : NotBelow v v := fun v hv => ⟨v, hv, le_refl v⟩

theorem NotBelow.trans {v v' v'' : Option Version} (h : NotBelow v v') (h' : NotBelow v' v'') : NotBelow v v'' := by
  intro w hw
  obtain ⟨w', hw', hle⟩ := h w hw
  obtain ⟨w'', hw'', hle'⟩ := h' w' hw'
  exact ⟨w'', hw'', hle.trans hle'⟩

structure Versions.Above (v v' : Versions) : Prop where
  durable : NotBelow v.durable v'.durable
  ahead : NotBelow v'.durable v'.working

theorem Versions.above_step {v₀ v : Versions} (h : v₀.Above v) (e : VersionEvent) : v₀.Above (v.step e).2 := by
  cases e with
  | writeSchemaVersion version =>
      by_cases hlower : v.working.any fun prev => version < prev
      · rw [Versions.step, if_pos hlower]
        exact h
      · rw [Versions.step, if_neg hlower]
        refine ⟨h.durable, h.ahead.trans fun prev hprev => ⟨version, rfl, ?_⟩⟩
        rw [Option.mem_def] at hprev
        simpa [hprev] using hlower
  | writeConfigValue key value hkey => exact h
  | readSchemaVersion => exact h
  | commit txn =>
      cases txn with
      | managed => exact ⟨h.durable.trans h.ahead, NotBelow.refl _⟩
      | external => exact h
  | rollback => exact ⟨h.durable, NotBelow.refl _⟩

/-- **The schema version**: for all calls, in any order with commits and transactions that are given up, a version is
refused exactly when the transaction sees a higher one, readers find the last one that was committed, and the version on
disk never goes down. -/
theorem schema_versions_refine (s : Session) (v : Versions) (hs : s.Versioned v)
    (hahead : NotBelow v.durable v.working) (events : List VersionEvent) :
    answers Session.versionStep s events = answers Versions.step v events ∧
      (after Session.versionStep s events).Versioned (after Versions.step v events) ∧
      NotBelow v.durable (after Versions.step v events).durable := by
  have hstep : ∀ s v e, Session.Versioned s v →
      (s.versionStep e).1 = (v.step e).1 ∧ (s.versionStep e).2.Versioned (v.step e).2 :=
    fun _ _ e hs => versionStep_versioned hs e
  obtain ⟨hanswers, hlast⟩ := simulation hstep hs events
  have hup : ∀ w e, v.Above w → v.Above (Versions.step w e).2 := fun _ e h => Versions.above_step h e
  have habove : v.Above v := ⟨NotBelow.refl _, hahead⟩
  exact ⟨hanswers, hlast, (after_keeps hup habove events).durable⟩

/-- From a new configuration table: version 1.0.0 is committed, and 0.1.0 is refused after it. -/
theorem schema_versions_refine_new :
    answers Session.versionStep (Session.begin { committed := (∅ : Maps).upsert kConfig ∅ })
      [.writeSchemaVersion { major := 1 }, .commit .managed, .writeSchemaVersion { minor := 1 }, .readSchemaVersion] =
      [.value none, .value none, .error (.invalidArgument (ascii "New version LT previous version")),
        .value (some (some { major := 1 }))] := by
  have hnew : (Session.begin { committed := (∅ : Maps).upsert kConfig ∅ }).Versioned {} :=
    ⟨rfl, rfl, rfl, rfl, rfl⟩
  exact (schema_versions_refine _ _ hnew (NotBelow.refl _) _).1.trans (by decide)

end Znode.Database
