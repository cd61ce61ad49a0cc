import Mathlib
import Znode.Lib.Simulation
import Znode.Database.Transactions

/-!
# The progress of the stages

The table `Stages` holds two numbers for each stage of the synchronization: the height it has reached, under the name of
the stage, and the height it has pruned up to, under the name with `prune_` in front.

* `getStageData`, `setStageData` : the helpers of `stages.cpp`, and the four calls that use them;
* `Session.stageStep` : the calls, made on the transaction that writes or on a new one that reads, with commits through
  both kinds of `RWTxn` and transactions that are given up;
* `Heights` : what the table is for. Two functions, one of them durable, and no bytes;
* `stages_refine` : whatever calls are made, the answers are those of `Heights`.
-/

namespace Znode.Database
open Znode.Lib

def kSyncStageProgress : Bytes := ascii "Stages"

def kAllStages : List Bytes :=
  [ascii "Headers", ascii "Bodies", ascii "Execution", ascii "Finish", ascii "Unwind"]

/-- `is_known_stage`, with `strcmp` as equality. -/
def isKnownStage (name : Bytes) : Bool := name.length ≠ 0 && kAllStages.any fun stage => stage = name

/-- The errors of MDBX are caught and thrown again as another exception. -/
def rethrow {α : Type} (func : String) (m : Act Exception Empty Txn α) : Act Exception Empty Txn α := fun txn =>
  match m txn with
  | .error (.mdbx error) txn' =>
    .error (.runtimeError (ascii "Error in " ++ ascii func ++ ascii " " ++ error.what)) txn'
  | outcome => outcome

def stageHeight : Option Bytes → Act Exception Empty Txn UInt32
  | none => return 0
  | some value =>
    if value.length ≠ 4 then throw (.lengthError (ascii "Expected 4 bytes of data got " ++ decimal value.length))
    else return UInt32.ofNat (beVal value)

def getStageData (stageName domain : Bytes) (keyPrefix : Option Bytes) : Act Exception Empty Txn UInt32 :=
  if !isKnownStage stageName then throw (.invalidArgument (ascii "Unknown stage name " ++ stageName))
  else rethrow "get_stage_data" do
    openMap domain
    let data ← find domain (keyPrefix.getD [] ++ stageName)
    stageHeight data

def setStageData (stageName : Bytes) (blockNum : UInt32) (domain : Bytes) (keyPrefix : Option Bytes) :
    Act Exception Empty Txn Unit :=
  if !isKnownStage stageName then throw (.invalidArgument (ascii "Unknown stage name"))
  else rethrow "set_stage_data" do
    openMap domain
    upsert domain (keyPrefix.getD [] ++ stageName) (beBytes 4 blockNum.toNat)

def readStageProgress (stageName : Bytes) : Act Exception Empty Txn UInt32 :=
  getStageData stageName kSyncStageProgress none

def readStagePruneProgress (stageName : Bytes) : Act Exception Empty Txn UInt32 :=
  getStageData stageName kSyncStageProgress (some (ascii "prune_"))

def writeStageProgress (stageName : Bytes) (blockNum : UInt32) : Act Exception Empty Txn Unit :=
  setStageData stageName blockNum kSyncStageProgress none

def writeStagePruneProgress (stageName : Bytes) (blockNum : UInt32) : Act Exception Empty Txn Unit :=
  setStageData stageName blockNum kSyncStageProgress (some (ascii "prune_"))

/-! ## Calls in a session -/

/-- The two numbers of a stage. -/
inductive Kind where
  | progress
  | prune
deriving DecidableEq, Repr

namespace Kind

def keyPrefix : Kind → Option Bytes
  | progress => none
  | prune => some (ascii "prune_")

def read : Kind → Bytes → Act Exception Empty Txn UInt32
  | progress => readStageProgress
  | prune => readStagePruneProgress

def write : Kind → Bytes → UInt32 → Act Exception Empty Txn Unit
  | progress => writeStageProgress
  | prune => writeStagePruneProgress

theorem read_eq (kind : Kind) (stage : Bytes) :
    kind.read stage = getStageData stage kSyncStageProgress kind.keyPrefix := by
  cases kind <;> rfl

theorem write_eq (kind : Kind) (stage : Bytes) (height : UInt32) :
    kind.write stage height = setStageData stage height kSyncStageProgress kind.keyPrefix := by
  cases kind <;> rfl

end Kind

inductive StageEvent where
  /-- A call of the transaction that writes. -/
  | read (kind : Kind) (stage : Bytes)
  | write (kind : Kind) (stage : Bytes) (height : UInt32)
  /-- A call of a transaction that begins now, and only reads. -/
  | readCommitted (kind : Kind) (stage : Bytes)
  | commit (txn : RWTxn)
  | rollback
deriving DecidableEq, Repr

/-- The answers are heights, where there is one to return. -/
def Session.stageStep (s : Session) : StageEvent → Answer (Option UInt32) × Session
  | .read kind stage =>
    let outcome := (kind.read stage).run s.txn
    (.ofOutcome some outcome, { s with txn := outcome.state })
  | .write kind stage height =>
    let outcome := (kind.write stage height).run s.txn
    (.ofOutcome (fun _ => none) outcome, { s with txn := outcome.state })
  | .readCommitted kind stage => (.ofOutcome some ((kind.read stage).run s.env.startRead), s)
  | .commit txn => (.value none, s.commit txn)
  | .rollback => (.value none, s.rollback)

/-! ## What the table is for -/

theorem isKnownStage_iff (name : Bytes) : isKnownStage name ↔ name ∈ kAllStages := by
  unfold isKnownStage
  rw [Bool.and_eq_true, List.any_eq_true]
  constructor
  · rintro ⟨-, stage, hmem, heq⟩
    rwa [← of_decide_eq_true heq]
  · intro hmem
    refine ⟨?_, name, hmem, by simp⟩
    have hlength : ∀ stage ∈ kAllStages, decide (stage.length ≠ 0) = true := by decide
    exact hlength name hmem

def Known (stage : Bytes) : Prop := stage ∈ kAllStages

instance : DecidablePred Known := fun stage => decidable_of_iff _ (isKnownStage_iff stage)

/-- The heights as the next reader will find them, and as the transaction that writes sees them. -/
structure Heights where
  durable : Kind → Bytes → UInt32 := fun _ _ => 0
  working : Kind → Bytes → UInt32 := fun _ _ => 0

namespace Heights

def set (h : Kind → Bytes → UInt32) (kind : Kind) (stage : Bytes) (height : UInt32) : Kind → Bytes → UInt32 :=
  fun kind' stage' => if kind' = kind ∧ stage' = stage then height else h kind' stage'

def step (h : Heights) : StageEvent → Answer (Option UInt32) × Heights
  | .read kind stage =>
    if Known stage then (.value (some (h.working kind stage)), h)
    else (.error (.invalidArgument (ascii "Unknown stage name " ++ stage)), h)
  | .write kind stage height =>
    if Known stage then (.value none, { h with working := set h.working kind stage height })
    else (.error (.invalidArgument (ascii "Unknown stage name")), h)
  | .readCommitted kind stage =>
    if Known stage then (.value (some (h.durable kind stage)), h)
    else (.error (.invalidArgument (ascii "Unknown stage name " ++ stage)), h)
  | .commit .managed => (.value none, { h with durable := h.working })
  | .commit .external => (.value none, h)
  | .rollback => (.value none, { h with working := h.durable })

end Heights

/-! ## The keys -/

def itemKey (kind : Kind) (stage : Bytes) : Bytes := kind.keyPrefix.getD [] ++ stage

theorem itemKey_inj {kind kind' : Kind} {stage stage' : Bytes} (h : stage ∈ kAllStages) (h' : stage' ∈ kAllStages) :
    itemKey kind stage = itemKey kind' stage' ↔ kind = kind' ∧ stage = stage' := by
  have hall : ∀ x ∈ kAllStages, ∀ y ∈ kAllStages, itemKey kind x = itemKey kind' y → kind = kind' ∧ x = y := by
    cases kind <;> cases kind' <;> decide
  constructor
  · exact hall stage h stage' h'
  · rintro ⟨rfl, rfl⟩
    rfl

/-! ## The refinement -/

/-- The table holds the heights; a height that is not there is zero. -/
def Represents (txn : Txn) (h : Kind → Bytes → UInt32) : Prop :=
  ∀ kind, ∀ stage ∈ kAllStages,
    txn.value kSyncStageProgress (itemKey kind stage) = some (beBytes 4 (h kind stage).toNat) ∨
    txn.value kSyncStageProgress (itemKey kind stage) = none ∧ h kind stage = 0

section Calls
variable {txn : Txn} {h : Kind → Bytes → UInt32} {kind : Kind} {stage : Bytes}

theorem rethrow_ok {α : Type} {func : String} {m : Act Exception Empty Txn α} {a : α} {txn' : Txn}
    (hm : m.run txn = .ok a txn') : (rethrow func m).run txn = .ok a txn' := by
  change rethrow func m txn = _
  have hm' : m txn = .ok a txn' := hm
  unfold rethrow
  rw [hm']

theorem stageHeight_of_represents (hrep : Represents txn h) (hstage : stage ∈ kAllStages) (txn' : Txn) :
    (stageHeight (txn.value kSyncStageProgress (itemKey kind stage))).run txn' = .ok (h kind stage) txn' := by
  rcases hrep kind stage hstage with hvalue | ⟨hvalue, hzero⟩
  · rw [hvalue, stageHeight, if_neg (by simp)]
    rw [beVal_beBytes (h kind stage).toNat_lt, UInt32.ofNat_toNat]
    rfl
  · rw [hvalue, hzero]
    rfl

theorem run_read (hrep : Represents txn h) (hopen : txn.readonly = false ∨ txn.Has kSyncStageProgress)
    (hstage : stage ∈ kAllStages) :
    (kind.read stage).run txn = .ok (h kind stage) (txn.opened kSyncStageProgress) := by
  rw [Kind.read_eq, getStageData, if_neg (by simp [(isKnownStage_iff stage).mpr hstage])]
  apply rethrow_ok
  rw [Act.run_bind, run_openMap hopen]
  change ((stageHeight _).run _) = _
  rw [Txn.value_opened]
  exact stageHeight_of_represents hrep hstage _

theorem run_write (hread : txn.readonly = false) (hstage : stage ∈ kAllStages) (height : UInt32) :
    (kind.write stage height).run txn = .ok () ((txn.opened kSyncStageProgress).write kSyncStageProgress
      (itemKey kind stage) (beBytes 4 height.toNat)) := by
  rw [Kind.write_eq, setStageData, if_neg (by simp [(isKnownStage_iff stage).mpr hstage])]
  apply rethrow_ok
  rw [Act.run_bind, run_openMap (Or.inl hread)]
  exact run_upsert ((Txn.readonly_opened txn kSyncStageProgress).trans hread) _ _

theorem run_read_unknown (hstage : stage ∉ kAllStages) :
    (kind.read stage).run txn = .error (.invalidArgument (ascii "Unknown stage name " ++ stage)) txn := by
  rw [Kind.read_eq, getStageData, if_pos (by simpa using mt (isKnownStage_iff stage).mp hstage)]
  rfl

theorem run_write_unknown (hstage : stage ∉ kAllStages) (height : UInt32) :
    (kind.write stage height).run txn = .error (.invalidArgument (ascii "Unknown stage name")) txn := by
  rw [Kind.write_eq, setStageData, if_pos (by simpa using mt (isKnownStage_iff stage).mp hstage)]
  rfl

theorem Represents.write (hrep : Represents txn h) (hstage : stage ∈ kAllStages) (height : UInt32) :
    Represents (txn.write kSyncStageProgress (itemKey kind stage) (beBytes 4 height.toNat))
      (Heights.set h kind stage height) := by
  intro kind' stage' hstage'
  rw [Txn.value_write, Heights.set]
  by_cases hsame : kind' = kind ∧ stage' = stage
  · obtain ⟨rfl, rfl⟩ := hsame
    left
    rw [if_pos ⟨rfl, rfl⟩, if_pos ⟨rfl, rfl⟩]
  · have hkey : ¬ (kSyncStageProgress = kSyncStageProgress ∧ itemKey kind' stage' = itemKey kind stage) := by
      rwa [itemKey_inj hstage' hstage, and_iff_right rfl]
    rw [if_neg hkey, if_neg hsame]
    exact hrep kind' stage' hstage'

end Calls

/-- The table exists, in the committed state and in the transaction that writes, and holds the heights there. -/
structure Session.Holds (s : Session) (h : Heights) : Prop where
  writes : s.txn.readonly = false
  deployed : s.env.startRead.Has kSyncStageProgress
  present : s.txn.Has kSyncStageProgress
  durable : Represents s.env.startRead h.durable
  working : Represents s.txn h.working

theorem stageStep_holds {s : Session} {h : Heights} (hs : s.Holds h) (e : StageEvent) :
    (s.stageStep e).1 = (h.step e).1 ∧ (s.stageStep e).2.Holds (h.step e).2 := by
  cases e with
  | read kind stage =>
      by_cases hstage : Known stage
      · simp only [Session.stageStep, Heights.step, if_pos hstage,
          run_read hs.working (Or.inl hs.writes) hstage, Txn.opened_of_has hs.present]
        exact ⟨rfl, hs⟩
      · simp only [Session.stageStep, Heights.step, if_neg hstage, run_read_unknown hstage]
        exact ⟨rfl, hs⟩
  | write kind stage height =>
      by_cases hstage : Known stage
      · simp only [Session.stageStep, Heights.step, if_pos hstage, run_write hs.writes hstage,
          Txn.opened_of_has hs.present]
        refine ⟨rfl, hs.writes, hs.deployed, ?_, hs.durable, hs.working.write hstage height⟩
        exact (Txn.has_write ..).mpr (Or.inl rfl)
      · simp only [Session.stageStep, Heights.step, if_neg hstage, run_write_unknown hstage]
        exact ⟨rfl, hs⟩
  | readCommitted kind stage =>
      by_cases hstage : Known stage
      · simp only [Session.stageStep, Heights.step, if_pos hstage, run_read hs.durable (Or.inr hs.deployed) hstage]
        exact ⟨rfl, hs⟩
      · simp only [Session.stageStep, Heights.step, if_neg hstage, run_read_unknown hstage]
        exact ⟨rfl, hs⟩
  | commit txn =>
      cases txn with
      | managed => exact ⟨rfl, rfl, hs.present, hs.present, hs.working, hs.working⟩
      | external => exact ⟨rfl, hs⟩
  | rollback => exact ⟨rfl, rfl, hs.deployed, hs.deployed, hs.durable, hs.durable⟩

/-- **The table refines the heights**: for all calls, with known and unknown names, in any order with commits and
transactions that are given up, the answers are those of two functions from stages to heights. -/
theorem stages_refine (s : Session) (h : Heights) (hs : s.Holds h) (events : List StageEvent) :
    answers Session.stageStep s events = answers Heights.step h events := by
  have hstep : ∀ s h e, Session.Holds s h →
      (s.stageStep e).1 = (h.step e).1 ∧ (s.stageStep e).2.Holds (h.step e).2 := fun _ _ e hs => stageStep_holds hs e
  exact (simulation hstep hs events).1

/-- A database right after its tables have been deployed. -/
def deployedStages : Session :=
  Session.begin { committed := (∅ : Maps).upsert kSyncStageProgress ∅ }

/-- There all heights are zero. -/
theorem stages_refine_deployed : deployedStages.Holds {} ∧
    answers Session.stageStep deployedStages
      [.write .progress (ascii "Bodies") 1200000, .commit .external, .readCommitted .progress (ascii "Bodies"),
        .commit .managed, .readCommitted .progress (ascii "Bodies"), .read .prune (ascii "Bodies")] =
      [.value none, .value none, .value (some 0), .value none, .value (some 1200000), .value (some 0)] := by
  have hholds : deployedStages.Holds {} := by
    refine ⟨rfl, rfl, rfl, ?_, ?_⟩ <;>
      exact fun _ _ _ => Or.inr ⟨rfl, rfl⟩
  exact ⟨hholds, (stages_refine deployedStages {} hholds _).trans rfl⟩

end Znode.Database
