import Mathlib
import Znode.Lib.Act
import Znode.Lib.Text
import Znode.Lib.BigEndian
import Znode.Lib.OrderedMap

/-!
# Tables and transactions

A database is a set of named tables, and a transaction works on a copy of it until it is committed.

* `Txn` : a transaction, with the tables as it sees them; `Txn.value` : what is stored under a key of a table;
* `openMap`, `find`, `upsert`, `hasMap`, `deployTables` : the calls, with the exceptions that leave them. A table is
  created when a transaction that writes opens it, and missed by one that only reads;
* `Answer` : what a caller sees of a call;
* `Env` : the committed states, and `Session` : an environment with its one transaction that writes;
* `Session.commit` : through an `RWTxn` that owns the transaction, or through one that wraps the transaction of somebody
  else and leaves the decision to them.

The handles of the cursors are the subject of `Database.Handles`.
-/

namespace Znode.Database
open Znode.Lib

abbrev Map := OrderedMap Bytes Bytes

abbrev Maps := OrderedMap Bytes Map

/-- The errors of MDBX that the calls here can meet. -/
inductive MdbxError where
  | notFound
  | permissionDenied
deriving DecidableEq, Repr

def MdbxError.what : MdbxError → Bytes
  | notFound => ascii "MDBX_NOTFOUND: No matching key/data pair found"
  | permissionDenied => ascii "Permission denied"

/-- The exceptions that leave a call, with what they say. -/
inductive Exception where
  | mdbx (error : MdbxError)
  | invalidArgument (what : Bytes)
  | lengthError (what : Bytes)
  | runtimeError (what : Bytes)
  | logicError (what : Bytes)
  | database (what : Bytes)
  | filesystemError (what : Bytes)
deriving DecidableEq, Repr

/-- What a caller sees of a call. -/
inductive Answer (α : Type) where
  | value (a : α)
  | error (e : Exception)
  /-- The process has ended. -/
  | abort
deriving DecidableEq, Repr

namespace Answer
variable {φ σ α β : Type}

/-- The answer of a call, with a part of what it returned. -/
def ofOutcome (f : α → β) : Outcome Exception φ σ α → Answer β
  | .ok a _ => value (f a)
  | .error e _ => error e
  | .fault _ _ => abort

@[simp] theorem ofOutcome_ok (f : α → β) (a : α) (s : σ) :
    ofOutcome f (.ok a s : Outcome Exception φ σ α) = value (f a) := rfl

@[simp] theorem ofOutcome_error (f : α → β) (e : Exception) (s : σ) :
    ofOutcome f (.error e s : Outcome Exception φ σ α) = error e := rfl

end Answer

structure Txn where
  readonly : Bool := false
  maps : Maps := ∅

section Calls
variable {φ : Type}

/-- `open_map`, as the constructor of a `Cursor` calls it. -/
def openMap (name : Bytes) : Act Exception φ Txn Unit := fun txn =>
  if (txn.maps.get name).isSome then .ok () txn
  else if txn.readonly then .error (.mdbx .notFound) txn
  else .ok () { txn with maps := txn.maps.upsert name ∅ }

def Txn.value (txn : Txn) (name key : Bytes) : Option Bytes := (txn.maps.get name).bind fun map => map.get key

/-- `find` and `seek` of a cursor: the value at exactly this key. -/
def find (name key : Bytes) : Act Exception φ Txn (Option Bytes) := fun txn => .ok (txn.value name key) txn

def upsert (name key value : Bytes) : Act Exception φ Txn Unit := fun txn =>
  if txn.readonly then .error (.mdbx .permissionDenied) txn
  else .ok () { txn with maps := txn.maps.upsert name (((txn.maps.get name).getD ∅).upsert key value) }

/-- `has_map`: the names of the tables are the keys of the main table. -/
def hasMap (name : Bytes) : Act Exception φ Txn Bool := fun txn => .ok (txn.maps.get name).isSome txn

/-- What `deploy_tables` does for each table. -/
def createTable (table : Bytes) : Act Exception φ Txn Unit := do
  if !(← hasMap table) then openMap table

def createTables : List Bytes → Act Exception φ Txn Unit
  | [] => pure ()
  | table :: tables => do
    createTable table
    createTables tables

def deployTables (tables : List Bytes) : Act Exception φ Txn Unit := do
  if (← get).readonly then throw (.invalidArgument (ascii "Can't deploy tables on RO transaction"))
  createTables tables

end Calls

/-! ## What the calls do -/

namespace Txn

def Has (txn : Txn) (name : Bytes) : Prop := (txn.maps.get name).isSome

def write (txn : Txn) (name key value : Bytes) : Txn :=
  { txn with maps := txn.maps.upsert name (((txn.maps.get name).getD ∅).upsert key value) }

def opened (txn : Txn) (name : Bytes) : Txn :=
  if (txn.maps.get name).isSome then txn else { txn with maps := txn.maps.upsert name ∅ }

variable (txn : Txn) (name key value : Bytes)

@[simp] theorem readonly_write : (txn.write name key value).readonly = txn.readonly := rfl

@[simp] theorem readonly_opened : (txn.opened name).readonly = txn.readonly := by
  unfold opened
  split_ifs <;> rfl

theorem value_write (name' key' : Bytes) : (txn.write name key value).value name' key' =
    if name' = name ∧ key' = key then some value else txn.value name' key' := by
  unfold Txn.value write
  rw [OrderedMap.get_upsert]
  by_cases hname : name' = name
  · subst hname
    rw [if_pos rfl, Option.bind_some, OrderedMap.get_upsert]
    by_cases hkey : key' = key
    · rw [if_pos hkey, if_pos ⟨rfl, hkey⟩]
    · rw [if_neg hkey, if_neg fun h => hkey h.2]
      cases txn.maps.get name' <;> rfl
  · rw [if_neg hname, if_neg fun h => hname h.1]

@[simp] theorem value_opened (name' : Bytes) : (txn.opened name).value name' key = txn.value name' key := by
  unfold Txn.value opened
  split_ifs with hname
  · rfl
  · rw [OrderedMap.get_upsert]
    split_ifs with h
    · subst h
      rw [Option.not_isSome_iff_eq_none.mp hname]
      rfl
    · rfl

theorem has_write (name' : Bytes) : (txn.write name key value).Has name' ↔ name' = name ∨ txn.Has name' := by
  unfold Has write
  rw [OrderedMap.get_upsert]
  split_ifs with h <;> simp [h]

variable {txn name} in
theorem opened_of_has (h : txn.Has name) : txn.opened name = txn := if_pos h

theorem has_opened (name' : Bytes) : (txn.opened name).Has name' ↔ name' = name ∨ txn.Has name' := by
  unfold Has opened
  split_ifs with hname
  · constructor
    · exact Or.inr
    · rintro (rfl | h)
      · exact hname
      · exact h
  · rw [OrderedMap.get_upsert]
    split_ifs with h <;> simp [h]

end Txn

section Runs
variable {φ : Type} {txn : Txn} {name : Bytes}

theorem run_openMap (h : txn.readonly = false ∨ txn.Has name) :
    (openMap name : Act Exception φ Txn Unit).run txn = .ok () (txn.opened name) := by
  change openMap name txn = _
  unfold openMap Txn.opened
  split_ifs with hname hread
  · rfl
  · exact absurd hread (by simpa using h.resolve_right hname)
  · rfl

@[simp] theorem run_find (key : Bytes) :
    (find name key : Act Exception φ Txn (Option Bytes)).run txn = .ok (txn.value name key) txn := rfl

theorem run_upsert (h : txn.readonly = false) (key value : Bytes) :
    (upsert name key value : Act Exception φ Txn Unit).run txn = .ok () (txn.write name key value) := by
  change upsert name key value txn = _
  rw [upsert, if_neg (by simp [h])]
  rfl

end Runs

/-! ## Deploying the tables -/

section Deploy
variable {φ : Type} {txn : Txn}

theorem run_createTable (h : txn.readonly = false) (table : Bytes) :
    (createTable table : Act Exception φ Txn Unit).run txn = .ok () (txn.opened table) := by
  change (if !(txn.maps.get table).isSome then openMap table else pure () : Act Exception φ Txn Unit).run txn = _
  by_cases hmap : (txn.maps.get table).isSome
  · rw [if_neg (by simp [hmap]), Txn.opened, if_pos hmap]
    rfl
  · rw [if_pos (by simp [hmap]), run_openMap (Or.inl h)]

/-- The tables exist afterwards, and no value has changed. -/
theorem run_createTables (h : txn.readonly = false) (tables : List Bytes) : ∃ txn',
    (createTables tables : Act Exception φ Txn Unit).run txn = .ok () txn' ∧ txn'.readonly = false ∧
      (∀ name, txn'.Has name ↔ name ∈ tables ∨ txn.Has name) ∧
      ∀ name key, txn'.value name key = txn.value name key := by
  induction tables generalizing txn with
  | nil => exact ⟨txn, rfl, h, by simp, fun _ _ => rfl⟩
  | cons table tables ih =>
      obtain ⟨txn', hrun, hread, hhas, hvalue⟩ := ih ((Txn.readonly_opened txn table).trans h)
      refine ⟨txn', ?_, hread, ?_, ?_⟩
      · rw [createTables, Act.run_bind, run_createTable h]
        exact hrun
      · intro name
        rw [hhas, Txn.has_opened, List.mem_cons]
        tauto
      · intro name key
        rw [hvalue, Txn.value_opened]

theorem run_deployTables (h : txn.readonly = false) (tables : List Bytes) : ∃ txn',
    (deployTables tables : Act Exception φ Txn Unit).run txn = .ok () txn' ∧ txn'.readonly = false ∧
      (∀ name, txn'.Has name ↔ name ∈ tables ∨ txn.Has name) ∧
      ∀ name key, txn'.value name key = txn.value name key := by
  have hcreate : ∃ txn', (createTables tables : Act Exception φ Txn Unit).run txn = .ok () txn' ∧ _ :=
    run_createTables h tables
  obtain ⟨txn', hrun, hrest⟩ := hcreate
  refine ⟨txn', ?_, hrest⟩
  rw [deployTables, Act.run_bind, Act.run_get]
  simpa [h] using hrun

end Deploy

/-! ## Committing -/

/-- The states that have been committed: the last one, and those before it. -/
structure Env where
  committed : Maps := ∅
  earlier : List Maps := []

namespace Env

/-- Nothing has ever been written. -/
def isPristine (env : Env) : Bool := env.committed.entries.isEmpty

def commit (env : Env) (maps : Maps) : Env := { committed := maps, earlier := env.committed :: env.earlier }

def startRead (env : Env) : Txn := { readonly := true, maps := env.committed }

def startWrite (env : Env) : Txn := { readonly := false, maps := env.committed }

end Env

/-- How an `RWTxn` has got its transaction. -/
inductive RWTxn where
  /-- From the environment. -/
  | managed
  /-- From a caller, who commits it. -/
  | external
deriving DecidableEq, Repr

structure Session where
  env : Env := {}
  txn : Txn := {}

namespace Session

def begin (env : Env) : Session := { env := env, txn := env.startWrite }

def commit (s : Session) : RWTxn → Session
  | .managed => begin (s.env.commit s.txn.maps)
  | .external => s

/-- The transaction is given up, and another one begins. -/
def rollback (s : Session) : Session := begin s.env

end Session

end Znode.Database
