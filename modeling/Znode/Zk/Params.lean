import Mathlib
import Znode.Lib.Act
import Znode.Core.Hex
import Znode.Zk.Download

/-!
# The parameters of the proofs

The node needs five files of parameters. `validate_param_files` looks at all of them first, removes those that are not
what they should be, and then asks whether it may download what is missing.

* `Surroundings` : what signals, the file system, the user and the server do at each call;
* `validateParamFiles` : the function, on a directory;
* `Intact` : a file has its size and its checksum;
* `param_files_sound` : after `true` all files are there, and a file that was all right is not touched, however the
  call ends;
* `param_files_complete` : if nothing goes wrong and the server has the files, the call returns `true`;
* `param_files_again` : the next call after that returns `true` without any change.

The queries for the status of a file do not fail. `validate_param_files` shows what it does on the console, which is
left out, as are the settings of the connection: the certificate of the server is not verified.
-/

namespace Znode.Zk
open Znode.Lib Znode.Core

structure ParamFile where
  name : Bytes
  expectedChecksum : Bytes
  expectedSize : Nat
deriving DecidableEq

def kSproutProvingKey : ParamFile :=
  ⟨ascii "sprout-proving.key", ascii "8bc20a7f013b2b58970cddd2e7ea028975c88ae7ceb9259a5344a16bc2c0eef7", 910173851⟩

def kSproutVerifyingKey : ParamFile :=
  ⟨ascii "sprout-verifying.key", ascii "4bd498dae0aacfd8e98dc306338d017d9c08dd0918ead18172bd0aec2fc5df82", 1449⟩

def kSproutGroth16Params : ParamFile :=
  ⟨ascii "sprout-groth16.params", ascii "b685d700c60328498fbde589c8c7c484c722b788b265b72af448a5bf0ee55b50", 725523612⟩

def kSaplingOutputParams : ParamFile :=
  ⟨ascii "sapling-output.params", ascii "2f0ebbcbb9bb0bcffe95a397e7eba89c29eb4dde6191c339db88570e3f3fb0e4", 3592860⟩

def kSaplingSpendParams : ParamFile :=
  ⟨ascii "sapling-spend.params", ascii "8e48ffd23abb3a5fd9c5589204f32d9c31285a04b78096ba40a79b75677efc13", 47958396⟩

def kParamFiles : List ParamFile :=
  [kSproutProvingKey, kSproutVerifyingKey, kSaplingOutputParams, kSaplingSpendParams, kSproutGroth16Params]

def kTrustedDownloadHost : Bytes := ascii "downloads.horizen.io"

def kTrustedDownloadPath : Bytes := ascii "/file/TrustedSetup/"

def request (p : ParamFile) : Bytes :=
  ascii "GET " ++ kTrustedDownloadPath ++ p.name ++ ascii " HTTP/1.1\r\nHost: " ++ kTrustedDownloadHost ++
    ascii "\r\n" ++ ascii "User-Agent: zen++\r\n" ++ ascii "Accept: */*\r\n" ++ ascii "Connection: close\r\n\r\n"

/-- What a name stands for in the directory. -/
inductive Entry where
  | absent
  | regular (content : Bytes)
  | other
deriving DecidableEq

/-- How `std::filesystem::remove` ends for a file that was there a moment ago. -/
inductive Removal where
  | removed
  /-- Somebody else was faster: it returns false. -/
  | gone
  /-- It throws. -/
  | denied
deriving DecidableEq

/-- What becomes of a file that is opened to be read. -/
inductive Opening where
  | closed
  | readable
  /-- A read fails before the end of the file: `eof()` is never set. -/
  | breaks
deriving DecidableEq

inductive Fetch where
  /-- `resolve` throws. -/
  | unresolved
  | unconnected
  | noHandshake
  /-- The file cannot be opened. -/
  | notCreated
  /-- The request cannot be sent. -/
  | notSent
  /-- All the bytes up to the end of the connection, whether the last error is `eof`, and how many of the bytes that are
  written get to the disk. -/
  | response (bytes : Bytes) (eof : Bool) (kept : Nat)
deriving DecidableEq

/-- The answers from outside, by the number of the question. -/
structure Surroundings (evp : Evp) where
  /-- A new context of the digest. -/
  context : evp.Context
  signalled : Nat → Bool
  remove : Nat → Removal
  openFile : Nat → Opening
  confirm : Nat → Bool
  fetch : Nat → Bytes → Fetch

structure Disk where
  files : Bytes → Entry
  /-- The files that have been opened to be read, and what became of them. -/
  openings : List (Bytes × Opening) := []

structure Directory extends Disk where
  /-- The number of questions so far. -/
  asked : Nat := 0

inductive Exception where
  | filesystemError
  | systemError
deriving DecidableEq

inductive Fault where
  /-- A failed `ASSERT_POST`. -/
  | assertion
  /-- The loop does not end. -/
  | endless
deriving DecidableEq

abbrev Call := Act Exception Fault Directory

def ask {α : Type} (answer : Nat → α) : Call α := do
  let d ← get
  set { d with asked := d.asked + 1 }
  pure (answer d.asked)

def put (name : Bytes) (entry : Entry) : Call Unit := do
  modify fun d => { d with files := Function.update d.files name entry }

section Calls
variable {evp : Evp} (sys : Surroundings evp)

def removeFile (name : Bytes) : Call Bool := do
  match ← ask sys.remove with
  | .removed =>
    put name .absent
    pure true
  | .gone =>
    put name .absent
    pure false
  | .denied => throw .filesystemError

def openFile (name : Bytes) : Call Opening := do
  let opening ← ask sys.openFile
  modify fun d => { d with openings := d.openings ++ [(name, opening)] }
  pure opening

def fileSize (name : Bytes) : Call Nat := do
  match (← get).files name with
  | .regular content => pure content.length
  | _ => throw .filesystemError

def getFileSha256Checksum (name : Bytes) : Call (Option Bytes) := do
  match (← get).files name with
  | .absent => pure none
  | .other => throw .filesystemError
  | .regular content =>
    match ← openFile sys name with
    | .closed => pure none
    | .breaks => Act.raise .endless
    | .readable =>
      let digest : MessageDigest evp := { context := sys.context }
      pure (some (checksumLoop digest.init (fileReads content)).finalize.1)

def validateFileChecksum (name expected : Bytes) : Call Bool := do
  match ← getFileSha256Checksum sys name with
  | none => pure false
  | some actual => pure (decide (actual = expected))

/-- `enc::hex::decode`, which must succeed. -/
def expectedChecksum (p : ParamFile) : Call Bytes :=
  match Hex.decode p.expectedChecksum with
  | .ok checksum => pure checksum
  | .error _ => Act.raise .assertion

def downloadParamFile (p : ParamFile) : Call Bool := do
  match ← ask (sys.fetch · (request p)) with
  | .unresolved => throw .systemError
  | .unconnected => pure false
  | .noHandshake => pure false
  | .notCreated => pure false
  | .notSent =>
    put p.name (.regular [])
    pure false
  | .response bytes eof kept =>
    put p.name (.regular ((written bytes).take kept))
    pure eof

/-- What the first loop finds. -/
inductive Verdict where
  | fine
  | errored
  /-- `return false`. -/
  | stop
deriving DecidableEq

/-- A file that is not what it should be is removed. -/
def discard (name : Bytes) : Call Verdict := do
  if ← removeFile sys name then pure .errored else pure .stop

/-- The body of the first loop. -/
def checkFile (noChecksums : Bool) (p : ParamFile) : Call Verdict := do
  if ← ask sys.signalled then pure .stop
  else
    match (← get).files p.name with
    | .absent => pure .errored
    | .other => pure .stop
    | .regular content =>
      if content.length ≠ p.expectedSize then discard sys p.name
      else if noChecksums then pure .fine
      else
        let expected ← expectedChecksum p
        if ← validateFileChecksum sys p.name expected then pure .fine else discard sys p.name

/-- The first loop: the files to be downloaded, or none for `return false`. -/
def checkLoop (noChecksums : Bool) : List ParamFile → Call (Option (List ParamFile))
  | [] => pure (some [])
  | p :: rest => do
    match ← checkFile sys noChecksums p with
    | .stop => pure none
    | .fine => checkLoop noChecksums rest
    | .errored => return (← checkLoop noChecksums rest).map (p :: ·)

/-- The body of the second loop. -/
def fetchFile (p : ParamFile) : Call Bool := do
  if ← ask sys.signalled then pure false
  else if ← downloadParamFile sys p then
    if (← fileSize p.name) ≠ p.expectedSize then pure false
    else
      let expected ← expectedChecksum p
      validateFileChecksum sys p.name expected
  else pure false

def fetchLoop : List ParamFile → Call Bool
  | [] => pure true
  | p :: rest => do
    if ← fetchFile sys p then fetchLoop rest else pure false

/-- `validate_param_files`, for any list of files. -/
def validateFiles (paramFiles : List ParamFile) (noChecksums : Bool) : Call Bool := do
  match ← checkLoop sys noChecksums paramFiles with
  | none => pure false
  | some errored =>
    if errored.isEmpty then pure true
    else if ← ask sys.confirm then fetchLoop sys errored
    else pure false

def validateParamFiles (noChecksums : Bool) : Call Bool := validateFiles sys kParamFiles noChecksums

end Calls

/-! ## What a call may do to the directory -/

section Sound
variable (evp : Evp) (noChecksums : Bool) (p : ParamFile)

/-- The file has its size, and its checksum if that is looked at. -/
def Accepted (entry : Entry) : Prop :=
  ∃ content, entry = .regular content ∧ content.length = p.expectedSize ∧
    (noChecksums = false → Hex.decode p.expectedChecksum = .ok (evp.hash content))

def Intact (entry : Entry) : Prop := Accepted evp false p entry

/-- The file may be removed: it is one, and it is not accepted or could not be opened. -/
def Replaceable (openings : List (Bytes × Opening)) (entry : Entry) : Prop :=
  entry ≠ .other ∧ (Accepted evp noChecksums p entry → noChecksums = false ∧ (p.name, Opening.closed) ∈ openings)

/-- Only files that may be removed have changed. -/
def Changed (openings : List (Bytes × Opening)) (paramFiles : List ParamFile) (files files' : Bytes → Entry) : Prop :=
  ∀ name, files' name ≠ files name →
    ∃ p ∈ paramFiles, p.name = name ∧ Replaceable evp noChecksums p openings (files name)

end Sound

/-- What holds of the files that have been opened since. -/
def Since {evp : Evp} (sys : Surroundings evp) (disk disk' : Disk) (P : List (Bytes × Opening) → Prop) : Prop :=
  ∃ openings, disk'.openings = disk.openings ++ openings ∧ (∀ o ∈ openings, ∃ n, sys.openFile n = o.2) ∧ P openings

section Steps
variable {evp : Evp} {sys : Surroundings evp} {noChecksums : Bool} {p : ParamFile} {d : Directory}
    {disk disk' disk'' : Disk}
  {files : Bytes → Entry} {content : Bytes} {openings : List (Bytes × Opening)}

theorem Since.refl {P : List (Bytes × Opening) → Prop} (h : P []) (hsame : disk'.openings = disk.openings) :
    Since sys disk disk' P :=
  ⟨[], by rw [hsame, List.append_nil], by simp, h⟩

theorem Since.trans {P Q R : List (Bytes × Opening) → Prop} (h : Since sys disk disk' P) (h' : Since sys disk' disk'' Q)
    (hR : ∀ o o', P o → Q o' → R (o ++ o')) : Since sys disk disk'' R := by
  obtain ⟨o, hdisk, hasked, hP⟩ := h
  obtain ⟨o', hdisk', hasked', hQ⟩ := h'
  refine ⟨o ++ o', by rw [hdisk', hdisk, List.append_assoc], ?_, hR o o' hP hQ⟩
  exact fun x hx => (List.mem_append.mp hx).elim (hasked x) (hasked' x)

theorem Since.mono {P Q : List (Bytes × Opening) → Prop} (h : Since sys disk disk' P) (hQ : ∀ o, P o → Q o) :
    Since sys disk disk' Q := by
  obtain ⟨o, hdisk, hasked, hP⟩ := h
  exact ⟨o, hdisk, hasked, hQ o hP⟩

theorem Intact.accepted {entry : Entry} (h : Intact evp p entry) : Accepted evp noChecksums p entry := by
  obtain ⟨content, hentry, hsize, hchecksum⟩ := h
  exact ⟨content, hentry, hsize, fun _ => hchecksum rfl⟩

theorem replaceable_absent : Replaceable evp noChecksums p openings .absent :=
  ⟨by decide, fun ⟨_, hentry, _⟩ => by cases hentry⟩

theorem Replaceable.mono {entry : Entry} {openings' : List (Bytes × Opening)}
    (h : Replaceable evp noChecksums p openings entry) (hsub : openings ⊆ openings') :
    Replaceable evp noChecksums p openings' entry :=
  ⟨h.1, fun haccepted => ⟨(h.2 haccepted).1, hsub (h.2 haccepted).2⟩⟩

theorem run_ask {α : Type} (answer : Nat → α) (d : Directory) :
    (ask answer).run d = .ok (answer d.asked) { d with asked := d.asked + 1 } := rfl

theorem within_ask {α β : Type} {I : Directory → Prop} {answer : Nat → α} {k : α → Call β} {Q : β → Directory → Prop}
    (hd : d.toDisk = disk)
    (hk : ∀ d' : Directory, d'.toDisk = disk → Act.Within I (k (answer d.asked)) d' Q) :
    Act.Within I (ask answer >>= k) d Q :=
  Act.Within.step (run_ask answer d) (hk _ hd)

theorem within_removeFile (hd : d.toDisk = disk) (name : Bytes) :
    Act.Within (fun d' => d'.toDisk = disk) (removeFile sys name) d
      fun _ d' => d'.toDisk = { disk with files := Function.update disk.files name .absent } := by
  refine within_ask hd fun d' hd' => ?_
  subst hd'
  cases sys.remove d.asked <;> rfl

/-- What the body of the first loop may find and do. -/
inductive Checked (evp : Evp) (noChecksums : Bool) (p : ParamFile) (openings : List (Bytes × Opening))
    (files : Bytes → Entry) : Verdict → (Bytes → Entry) → Prop where
  | fine (h : Accepted evp noChecksums p (files p.name)) : Checked evp noChecksums p openings files .fine files
  | missing (h : files p.name = .absent) : Checked evp noChecksums p openings files .errored files
  | removed (h : Replaceable evp noChecksums p openings (files p.name)) :
      Checked evp noChecksums p openings files .errored (Function.update files p.name .absent)
  | gone (h : Replaceable evp noChecksums p openings (files p.name)) :
      Checked evp noChecksums p openings files .stop (Function.update files p.name .absent)
  | stop : Checked evp noChecksums p openings files .stop files

theorem within_discard (hd : d.toDisk = disk) (h : Replaceable evp noChecksums p openings (disk.files p.name)) :
    Act.Within (fun d' => d'.toDisk = disk) (discard sys p.name) d
      fun v d' => d'.openings = disk.openings ∧ Checked evp noChecksums p openings disk.files v d'.files := by
  refine (within_removeFile hd p.name).bind fun removed d' hd' => ?_
  have hfiles : d'.files = Function.update disk.files p.name .absent := congrArg Disk.files hd'
  have hopenings : d'.openings = disk.openings := by rw [hd']
  cases removed with
  | true => exact Act.Within.pure ⟨hopenings, hfiles ▸ .removed h⟩
  | false => exact Act.Within.pure ⟨hopenings, hfiles ▸ .gone h⟩

/-- The only thing that has changed is that the file was opened. -/
def Opened (sys : Surroundings evp) (name : Bytes) (disk disk' : Disk) (opening : Opening) : Prop :=
  disk'.files = disk.files ∧ disk'.openings = disk.openings ++ [(name, opening)] ∧ ∃ n, sys.openFile n = opening

theorem Opened.since {name : Bytes} {opening : Opening} (h : Opened sys name disk disk' opening)
    {P : List (Bytes × Opening) → Prop} (hP : P [(name, opening)]) : Since sys disk disk' P :=
  ⟨_, h.2.1, fun o ho => by rw [List.mem_singleton.mp ho]; exact h.2.2, hP⟩

theorem within_validateFileChecksum (hd : d.toDisk = disk) {name : Bytes} (hname : disk.files name = .regular content)
    (expected : Bytes) :
    Act.Within (fun d' => ∃ opening, Opened sys name disk d'.toDisk opening) (validateFileChecksum sys name expected) d
      fun ok d' => ∃ opening, Opened sys name disk d'.toDisk opening ∧ (ok = true → evp.hash content = expected) ∧
        (ok = false → evp.hash content ≠ expected ∨ opening = .closed) := by
  have hchecksum : Act.Within (fun d' => ∃ opening, Opened sys name disk d'.toDisk opening)
      (getFileSha256Checksum sys name) d fun r d' => ∃ opening, Opened sys name disk d'.toDisk opening ∧
        (r = some (evp.hash content) ∨ r = none ∧ opening = .closed) := by
    subst hd
    refine Act.Within.step rfl ?_
    rw [hname]
    refine Act.Within.step rfl ?_
    have hopened : Opened sys name d.toDisk { d.toDisk with openings := d.openings ++ [(name, sys.openFile d.asked)] }
        (sys.openFile d.asked) := ⟨rfl, rfl, d.asked, rfl⟩
    cases hopen : sys.openFile d.asked with
    | closed => exact ⟨_, hopen ▸ hopened, Or.inr ⟨rfl, rfl⟩⟩
    | breaks => exact ⟨_, hopen ▸ hopened⟩
    | readable => exact ⟨_, hopen ▸ hopened, Or.inl (congrArg some (checksumLoop_eq_hash _ content))⟩
  refine hchecksum.bind fun r d' hr => ?_
  obtain ⟨opening, hopened, rfl | ⟨rfl, hclosed⟩⟩ := hr
  · exact ⟨opening, hopened, fun hok => of_decide_eq_true hok, fun hok => Or.inl (of_decide_eq_false hok)⟩
  · exact ⟨opening, hopened, fun hok => absurd hok (by decide), fun _ => Or.inr hclosed⟩

theorem run_expectedChecksum {expected : Bytes} (h : Hex.decode p.expectedChecksum = .ok expected) (d : Directory) :
    (expectedChecksum p).run d = .ok expected d := by
  rw [expectedChecksum, h]
  rfl

theorem within_expectedChecksum {β : Type} {I : Directory → Prop} {k : Bytes → Call β} {Q : β → Directory → Prop}
    (hI : I d) (hk : ∀ expected, Hex.decode p.expectedChecksum = .ok expected → Act.Within I (k expected) d Q) :
    Act.Within I (expectedChecksum p >>= k) d Q := by
  cases hdecode : Hex.decode p.expectedChecksum with
  | error e =>
      unfold Act.Within expectedChecksum
      rw [hdecode]
      exact hI
  | ok expected => exact Act.Within.step (run_expectedChecksum hdecode d) (hk expected hdecode)

def Untouched (sys : Surroundings evp) (disk disk' : Disk) : Prop :=
  disk'.files = disk.files ∧ Since sys disk disk' fun _ => True

theorem Untouched.of_eq (h : disk' = disk) : Untouched sys disk disk' := by
  subst h
  exact ⟨rfl, Since.refl trivial rfl⟩

theorem Opened.untouched {name : Bytes} {opening : Opening} (h : Opened sys name disk disk' opening) :
    Untouched sys disk disk' := ⟨h.1, h.since trivial⟩

theorem within_compare (hd : d.toDisk = disk) (hname : disk.files p.name = .regular content)
    (hsize : content.length = p.expectedSize) :
    Act.Within (fun d' => Untouched sys disk d'.toDisk)
      (do
        let expected ← expectedChecksum p
        if ← validateFileChecksum sys p.name expected then pure .fine else discard sys p.name) d
      fun v d' => Since sys disk d'.toDisk fun o => Checked evp false p o disk.files v d'.files := by
  refine within_expectedChecksum (Untouched.of_eq hd) fun expected hdecode => ?_
  have hvalidate : Act.Within _ (validateFileChecksum sys p.name expected) d _ :=
    within_validateFileChecksum hd hname expected
  refine Act.Within.bind (hvalidate.imp (fun d' h => h.choose_spec.untouched) fun _ _ h => h) fun ok d' hok => ?_
  obtain ⟨opening, hopened, htrue, hfalse⟩ := hok
  cases ok with
  | true =>
      refine Act.Within.pure (hopened.since ?_)
      rw [hopened.1]
      exact .fine ⟨content, hname, hsize, fun _ => by rw [hdecode, htrue rfl]⟩
  | false =>
      have hreplaceable : Replaceable evp false p [(p.name, opening)] (d'.files p.name) := by
        rw [hopened.1, hname]
        refine ⟨by simp, ?_⟩
        rintro ⟨content', hentry, -, hchecksum⟩
        cases hentry
        have heq := hchecksum rfl
        rw [hdecode] at heq
        cases heq
        rw [(hfalse rfl).resolve_left fun hne => hne rfl]
        exact ⟨rfl, List.mem_singleton_self _⟩
      refine (within_discard rfl hreplaceable).imp (fun d'' hd'' => ?_) fun v d'' hv => ?_
      · rw [hd'']
        exact hopened.untouched
      · rw [← hopened.1]
        exact (hopened.since rfl).trans (Since.refl (P := (· = [])) rfl hv.1) (by rintro _ _ rfl rfl; exact hv.2)

theorem within_checkFile (hd : d.toDisk = disk) :
    Act.Within (fun d' => Untouched sys disk d'.toDisk) (checkFile sys noChecksums p) d
      fun v d' => Since sys disk d'.toDisk fun o => Checked evp noChecksums p o disk.files v d'.files := by
  have hverdict : ∀ (v : Verdict) (d' : Directory), d'.toDisk = disk →
      Checked evp noChecksums p [] disk.files v disk.files →
      Act.Within (fun d' => Untouched sys disk d'.toDisk) (pure v : Call Verdict) d'
        fun v d' => Since sys disk d'.toDisk fun o => Checked evp noChecksums p o disk.files v d'.files := by
    rintro v d' rfl h
    exact Act.Within.pure (Since.refl h rfl)
  refine within_ask hd fun d₁ hd₁ => ?_
  split
  · exact hverdict _ d₁ hd₁ .stop
  · refine Act.Within.step rfl ?_
    rw [show d₁.files = disk.files from congrArg Disk.files hd₁]
    cases hentry : disk.files p.name with
    | absent => exact hverdict _ d₁ hd₁ (.missing hentry)
    | other => exact hverdict _ d₁ hd₁ .stop
    | regular content =>
        by_cases hsize : content.length = p.expectedSize
        · simp only [hsize, ne_eq, not_true_eq_false, if_false]
          cases noChecksums with
          | true => exact hverdict _ d₁ hd₁ (.fine ⟨content, hentry, hsize, fun h => by cases h⟩)
          | false => exact within_compare hd₁ hentry hsize
        · simp only [hsize, ne_eq, not_false_eq_true, if_true]
          have hreplaceable : Replaceable evp noChecksums p [] (disk.files p.name) := by
            rw [hentry]
            refine ⟨by simp, ?_⟩
            rintro ⟨content', hentry', hsize', -⟩
            cases hentry'
            exact absurd hsize' hsize
          refine (within_discard hd₁ hreplaceable).imp (fun d' hd' => Untouched.of_eq hd') fun v d' hv => ?_
          exact Since.refl hv.2 hv.1

/-! ## The loops -/

variable {l : List ParamFile} {files' files'' : Bytes → Entry} {openings' : List (Bytes × Opening)}

theorem Checked.changed {v : Verdict} (h : Checked evp noChecksums p openings files v files') :
    Changed evp noChecksums openings [p] files files' := by
  intro name hne
  have hupdate : Replaceable evp noChecksums p openings (files p.name) →
      Function.update files p.name .absent name ≠ files name →
      ∃ q ∈ [p], q.name = name ∧ Replaceable evp noChecksums q openings (files name) := by
    intro hreplaceable hne
    have hname : name = p.name := by
      by_contra hother
      exact hne (Function.update_of_ne hother _ _)
    exact ⟨p, List.mem_singleton_self p, hname.symm, hname ▸ hreplaceable⟩
  cases h with
  | fine | missing | stop => exact absurd rfl hne
  | removed h | gone h => exact hupdate h hne

theorem Checked.replaceable (h : Checked evp noChecksums p openings files .errored files') :
    Replaceable evp noChecksums p openings (files p.name) := by
  cases h with
  | missing h => exact h ▸ replaceable_absent
  | removed h => exact h

/-- Changes of the other files do not concern this one. -/
theorem Changed.eq_of_notMem (h : Changed evp noChecksums openings l files files') {name : Bytes}
    (hname : name ∉ l.map ParamFile.name) : files' name = files name := by
  by_contra hne
  obtain ⟨p, hp, hpname, -⟩ := h name hne
  exact hname (hpname ▸ List.mem_map_of_mem hp)

theorem Changed.cons (h : Changed evp noChecksums openings [p] files files')
    (hl : Changed evp noChecksums openings' l files' files'') (hp : p.name ∉ l.map ParamFile.name) :
    Changed evp noChecksums (openings ++ openings') (p :: l) files files'' := by
  intro name hne
  by_cases hsame : files'' name = files' name
  · obtain ⟨q, hq, hname, hreplaceable⟩ := h name (hsame ▸ hne)
    exact ⟨q, List.mem_cons.mpr (Or.inl (List.mem_singleton.mp hq)), hname,
      hreplaceable.mono (List.subset_append_left _ _)⟩
  · obtain ⟨q, hq, rfl, hreplaceable⟩ := hl name hsame
    have hother : q.name ∉ [p].map ParamFile.name := by
      intro hmem
      exact hp (List.mem_singleton.mp hmem ▸ List.mem_map_of_mem hq)
    exact ⟨q, List.mem_cons_of_mem p hq, rfl,
      h.eq_of_notMem hother ▸ hreplaceable.mono (List.subset_append_right _ _)⟩

structure Found (evp : Evp) (noChecksums : Bool) (l : List ParamFile) (openings : List (Bytes × Opening))
    (files files' : Bytes → Entry) (errored : List ParamFile) : Prop where
  sublist : errored.Sublist l
  replaceable : ∀ p ∈ errored, Replaceable evp noChecksums p openings (files p.name)
  accepted : ∀ p ∈ l, p ∉ errored → Accepted evp noChecksums p (files p.name) ∧ files' p.name = files p.name

theorem Found.of_changed {errored : List ParamFile} (h : Found evp noChecksums l openings' files' files'' errored)
    (hchanged : Changed evp noChecksums openings [p] files files') (hp : p.name ∉ l.map ParamFile.name) :
    Found evp noChecksums l (openings ++ openings') files files'' errored := by
  have hsame : ∀ q ∈ l, files' q.name = files q.name := fun q hq => hchanged.eq_of_notMem fun hmem =>
    hp (List.mem_singleton.mp hmem ▸ List.mem_map_of_mem hq)
  refine ⟨h.sublist, fun q hq => ?_, fun q hq hnot => ?_⟩
  · exact hsame q (h.sublist.subset hq) ▸ (h.replaceable q hq).mono (List.subset_append_right _ _)
  · exact hsame q hq ▸ h.accepted q hq hnot

theorem Found.fine {errored : List ParamFile} (h : Found evp noChecksums l openings files files' errored)
    (hp : Accepted evp noChecksums p (files p.name)) (hsame : files' p.name = files p.name) :
    Found evp noChecksums (p :: l) openings files files' errored := by
  refine ⟨h.sublist.cons p, h.replaceable, fun q hq hnot => ?_⟩
  rcases List.mem_cons.mp hq with rfl | hq
  · exact ⟨hp, hsame⟩
  · exact h.accepted q hq hnot

theorem Found.errored {errored : List ParamFile} (h : Found evp noChecksums l openings files files' errored)
    (hp : Replaceable evp noChecksums p openings (files p.name)) :
    Found evp noChecksums (p :: l) openings files files' (p :: errored) := by
  refine ⟨h.sublist.cons_cons p, ?_, fun q hq hnot => ?_⟩
  · exact List.forall_mem_cons.mpr ⟨hp, h.replaceable⟩
  · rw [List.mem_cons, not_or] at hnot
    obtain ⟨hne, hnot⟩ := hnot
    exact h.accepted q ((List.mem_cons.mp hq).resolve_left hne) hnot

theorem Checked.of_fine (h : Checked evp noChecksums p openings files .fine files') :
    files' = files ∧ Accepted evp noChecksums p (files p.name) := by
  cases h with
  | fine h => exact ⟨rfl, h⟩

theorem Changed.refl : Changed evp noChecksums openings l files files := fun _ hne => absurd rfl hne

/-- Only files that may be removed have changed, for what has been opened since. -/
def Runs (sys : Surroundings evp) (noChecksums : Bool) (l : List ParamFile) (disk disk' : Disk) : Prop :=
  Since sys disk disk' fun o => Changed evp noChecksums o l disk.files disk'.files

theorem within_checkLoop (l : List ParamFile) (hnodup : (l.map ParamFile.name).Nodup) (hd : d.toDisk = disk) :
    Act.Within (fun d' => Runs sys noChecksums l disk d'.toDisk) (checkLoop sys noChecksums l) d
      fun r d' => Since sys disk d'.toDisk fun o => Changed evp noChecksums o l disk.files d'.files ∧
        ∀ errored, r = some errored → Found evp noChecksums l o disk.files d'.files errored := by
  induction l generalizing d disk with
  | nil =>
      subst hd
      refine Act.Within.pure (Since.refl ⟨Changed.refl, fun errored hr => ?_⟩ rfl)
      cases hr
      exact ⟨List.Sublist.slnil, by simp, by simp⟩
  | cons p l ih =>
      obtain ⟨hp, hnodup⟩ := List.nodup_cons.mp hnodup
      refine Act.Within.bind ((within_checkFile hd).imp (fun d' hd' => ?_) fun _ _ hv => hv) fun v d₁ hv => ?_
      · rw [Runs, hd'.1]
        exact hd'.2.mono fun _ _ => Changed.refl
      have hrest : Act.Within _ (checkLoop sys noChecksums l) d₁ _ := ih hnodup rfl
      have hearly : ∀ d' : Directory, Runs sys noChecksums l d₁.toDisk d'.toDisk →
          Runs sys noChecksums (p :: l) disk d'.toDisk := fun d' h =>
        hv.trans h fun o o' hchecked hchanged => hchecked.changed.cons hchanged hp
      cases v with
      | stop =>
          have hnone : Since sys d₁.toDisk d₁.toDisk fun o => Changed evp noChecksums o l d₁.files d₁.files :=
            Since.refl Changed.refl rfl
          refine Act.Within.pure (hv.trans hnone fun o o' hchecked hchanged => ⟨?_, fun errored hr => by cases hr⟩)
          exact hchecked.changed.cons hchanged hp
      | fine =>
          refine hrest.imp hearly fun r d' hr => hv.trans hr fun o o' hchecked hfound => ?_
          refine ⟨hchecked.changed.cons hfound.1 hp, fun errored herrored => ?_⟩
          obtain ⟨hsame, haccepted⟩ := hchecked.of_fine
          exact ((hfound.2 errored herrored).of_changed hchecked.changed hp).fine haccepted
            (hsame ▸ hfound.1.eq_of_notMem hp)
      | errored =>
          refine (hrest.imp hearly fun _ _ h => h).bind fun r d' hr => ?_
          refine Act.Within.pure (hv.trans hr fun o o' hchecked hfound => ?_)
          refine ⟨hchecked.changed.cons hfound.1 hp, fun errored herrored => ?_⟩
          obtain ⟨errored', hsome, rfl⟩ := Option.map_eq_some_iff.mp herrored
          exact ((hfound.2 errored' hsome).of_changed hchecked.changed hp).errored
            (hchecked.replaceable.mono (List.subset_append_left _ _))

def Touches (sys : Surroundings evp) (l : List ParamFile) (disk disk' : Disk) : Prop :=
  (∀ name, name ∉ l.map ParamFile.name → disk'.files name = disk.files name) ∧ Since sys disk disk' fun _ => True

theorem Untouched.touches (h : Untouched sys disk disk') : Touches sys l disk disk' :=
  ⟨fun name _ => congrFun h.1 name, h.2⟩

theorem Touches.trans (h : Touches sys l disk disk') (h' : Untouched sys disk' disk'') : Touches sys l disk disk'' :=
  ⟨fun name hname => (congrFun h'.1 name).trans (h.1 name hname), h.2.trans h'.2 fun _ _ _ _ => trivial⟩

theorem within_downloadParamFile (hd : d.toDisk = disk) :
    Act.Within (fun d' => Touches sys [p] disk d'.toDisk) (downloadParamFile sys p) d
      fun _ d' => Touches sys [p] disk d'.toDisk := by
  refine within_ask hd fun d' hd' => ?_
  have hsame : Touches sys [p] disk d'.toDisk := (Untouched.of_eq hd').touches
  have hput : ∀ entry, Touches sys [p] disk { d'.toDisk with files := Function.update d'.files p.name entry } := by
    rintro entry
    refine ⟨fun name hname => ?_, Since.refl trivial (show d'.openings = disk.openings by rw [hd'])⟩
    rw [← hd']
    exact Function.update_of_ne (fun heq => hname (by simp [heq])) _ _
  cases sys.fetch d.asked (request p) with
  | unresolved | unconnected | noHandshake | notCreated => exact hsame
  | notSent => exact hput _
  | response bytes eof kept => exact hput _

theorem run_fileSize {name : Bytes} (h : d.files name = .regular content) :
    (fileSize name).run d = .ok content.length d := by
  simp only [fileSize, Act.run_bind, Act.run_get, h, Act.run_pure]

theorem within_fetchFile (hd : d.toDisk = disk) :
    Act.Within (fun d' => Touches sys [p] disk d'.toDisk) (fetchFile sys p) d
      fun ok d' => Touches sys [p] disk d'.toDisk ∧ (ok = true → Intact evp p (d'.files p.name)) := by
  have hno : ∀ d' : Directory, Touches sys [p] disk d'.toDisk →
      Act.Within (fun d' => Touches sys [p] disk d'.toDisk) (pure false : Call Bool) d'
        fun ok d' => Touches sys [p] disk d'.toDisk ∧ (ok = true → Intact evp p (d'.files p.name)) :=
    fun _ h => Act.Within.pure ⟨h, fun hok => absurd hok (by decide)⟩
  refine within_ask hd fun d₁ hd₁ => ?_
  split
  · exact hno d₁ (Untouched.of_eq hd₁).touches
  refine (within_downloadParamFile hd₁).bind fun ok d₂ htouches => ?_
  split
  · -- the size and the checksum of what was downloaded
    cases hentry : d₂.files p.name with
    | absent | other =>
        unfold Act.Within
        simp only [fileSize, Act.run_bind, Act.run_get, hentry, Act.run_throw]
        exact htouches
    | regular content =>
        refine Act.Within.step (run_fileSize hentry) ?_
        split_ifs with hsize
        · exact hno d₂ htouches
        rw [ne_eq, not_not] at hsize
        refine within_expectedChecksum htouches fun expected hdecode => ?_
        have hvalidate : Act.Within _ (validateFileChecksum sys p.name expected) d₂ _ :=
          within_validateFileChecksum rfl hentry expected
        refine hvalidate.imp (fun d' h => htouches.trans h.choose_spec.untouched) fun ok d' hok => ?_
        obtain ⟨opening, hopened, htrue, -⟩ := hok
        refine ⟨htouches.trans hopened.untouched, fun hok => ⟨content, ?_, hsize, fun _ => by rw [hdecode, htrue hok]⟩⟩
        rw [hopened.1, hentry]
  · exact hno d₂ htouches

theorem Touches.cons (h : Touches sys [p] disk disk') (hl : Touches sys l disk' disk'') :
    Touches sys (p :: l) disk disk'' := by
  refine ⟨fun name hname => ?_, h.2.trans hl.2 fun _ _ _ _ => trivial⟩
  rw [List.map_cons, List.mem_cons, not_or] at hname
  rw [hl.1 name hname.2, h.1 name (fun hmem => hname.1 (List.mem_singleton.mp hmem))]

theorem within_fetchLoop (l : List ParamFile) (hnodup : (l.map ParamFile.name).Nodup) (hd : d.toDisk = disk) :
    Act.Within (fun d' => Touches sys l disk d'.toDisk) (fetchLoop sys l) d
      fun ok d' => Touches sys l disk d'.toDisk ∧ (ok = true → ∀ p ∈ l, Intact evp p (d'.files p.name)) := by
  induction l generalizing d disk with
  | nil => exact Act.Within.pure ⟨(Untouched.of_eq hd).touches, by simp⟩
  | cons p l ih =>
      obtain ⟨hp, hnodup⟩ := List.nodup_cons.mp hnodup
      have hself : ∀ {disk : Disk}, Touches sys l disk disk := (Untouched.of_eq rfl).touches
      refine Act.Within.bind ((within_fetchFile hd).imp (fun d' h => h.cons hself) fun _ _ h => h)
        fun ok d₁ hfetch => ?_
      cases ok with
      | false => exact Act.Within.pure ⟨hfetch.1.cons hself, fun hok => absurd hok (by decide)⟩
      | true =>
          have hrest : Act.Within _ (fetchLoop sys l) d₁ _ := ih hnodup rfl
          refine hrest.imp (fun d' h => hfetch.1.cons h) fun ok d' h => ⟨hfetch.1.cons h.1, fun hok => ?_⟩
          refine List.forall_mem_cons.mpr ⟨?_, h.2 hok⟩
          rw [h.1.1 p.name hp]
          exact hfetch.2 rfl

theorem within_validateFiles {paramFiles : List ParamFile} (hnodup : (paramFiles.map ParamFile.name).Nodup)
    (d : Directory) :
    Act.Within (fun d' => Runs sys noChecksums paramFiles d.toDisk d'.toDisk)
      (validateFiles sys paramFiles noChecksums) d fun ok d' => Runs sys noChecksums paramFiles d.toDisk d'.toDisk ∧
        (ok = true → ∀ p ∈ paramFiles, Accepted evp noChecksums p (d'.files p.name) ∧
          (d'.files p.name ≠ d.files p.name → Intact evp p (d'.files p.name))) := by
  refine (within_checkLoop paramFiles hnodup rfl).bind fun r d₁ hr => ?_
  have hruns : Runs sys noChecksums paramFiles d.toDisk d₁.toDisk := by
    obtain ⟨o, hopenings, hasked, hchanged, -⟩ := hr
    exact ⟨o, hopenings, hasked, hchanged⟩
  cases r with
  | none => exact Act.Within.pure ⟨hruns, fun hok => absurd hok (by decide)⟩
  | some errored =>
      obtain ⟨o, hopenings, hasked, hchanged, hfound⟩ := hr
      have h := hfound errored rfl
      -- the files that are downloaded may be replaced
      have hfetch : ∀ d' : Directory, Touches sys errored d₁.toDisk d'.toDisk →
          Runs sys noChecksums paramFiles d.toDisk d'.toDisk := by
        intro d' htouches
        refine Since.trans ⟨o, hopenings, hasked, rfl⟩ htouches.2 ?_
        rintro _ o' rfl - name hne
        by_cases hmem : name ∈ errored.map ParamFile.name
        · obtain ⟨p, hp, rfl⟩ := List.mem_map.mp hmem
          exact ⟨p, h.sublist.subset hp, rfl, (h.replaceable p hp).mono (List.subset_append_left _ _)⟩
        · rw [htouches.1 name hmem] at hne
          obtain ⟨p, hp, hname, hreplaceable⟩ := hchanged name hne
          exact ⟨p, hp, hname, hreplaceable.mono (List.subset_append_left _ _)⟩
      have hkept : ∀ d' : Directory, Touches sys errored d₁.toDisk d'.toDisk → ∀ p ∈ paramFiles, p ∉ errored →
          Accepted evp noChecksums p (d.files p.name) ∧ d'.files p.name = d.files p.name := by
        intro d' htouches p hp hnot
        obtain ⟨haccepted, hsame⟩ := h.accepted p hp hnot
        refine ⟨haccepted, (htouches.1 p.name fun hmem => ?_).trans hsame⟩
        obtain ⟨q, hq, hname⟩ := List.mem_map.mp hmem
        exact hnot (List.inj_on_of_nodup_map hnodup (h.sublist.subset hq) hp hname ▸ hq)
      have hanswer : ∀ d' : Directory, Touches sys errored d₁.toDisk d'.toDisk →
          (∀ p ∈ errored, Intact evp p (d'.files p.name)) → ∀ p ∈ paramFiles,
            Accepted evp noChecksums p (d'.files p.name) ∧
              (d'.files p.name ≠ d.files p.name → Intact evp p (d'.files p.name)) := by
        intro d' htouches hintact p hp
        by_cases hmem : p ∈ errored
        · exact ⟨(hintact p hmem).accepted, fun _ => hintact p hmem⟩
        · obtain ⟨haccepted, hsame⟩ := hkept d' htouches p hp hmem
          exact ⟨hsame ▸ haccepted, fun hne => absurd hsame hne⟩
      have hself : ∀ {l : List ParamFile}, Touches sys l d₁.toDisk d₁.toDisk := (Untouched.of_eq rfl).touches
      cases errored with
      | nil => exact Act.Within.pure ⟨hruns, fun _ => hanswer d₁ hself (by simp)⟩
      | cons p rest =>
          refine within_ask rfl fun d₂ hd₂ => ?_
          split
          · refine (within_fetchLoop _ ((h.sublist.map _).nodup hnodup) hd₂).imp hfetch fun ok d' hok => ?_
            exact ⟨hfetch d' hok.1, fun htrue => hanswer d' hok.1 (hok.2 htrue)⟩
          · exact Act.Within.pure ⟨hd₂ ▸ hruns, fun hok => absurd hok (by decide)⟩

/-! ## When nothing goes wrong -/

/-- No signal comes, and all files can be removed and read. -/
structure Smooth (sys : Surroundings evp) : Prop where
  signalled : ∀ n, sys.signalled n = false
  remove : ∀ n, sys.remove n = .removed
  openFile : ∀ n, sys.openFile n = .readable

/-- The server has the file, and there is room for it. -/
def Serves (sys : Surroundings evp) (p : ParamFile) : Prop :=
  ∀ n, ∃ bytes kept, sys.fetch n (request p) = .response bytes true kept ∧ HeadersInBlock bytes ∧
    (body bytes).length ≤ kept ∧ Intact evp p (.regular (body bytes))

theorem Intact.decode {entry : Entry} (h : Intact evp p entry) :
    ∃ expected, Hex.decode p.expectedChecksum = .ok expected := by
  obtain ⟨content, -, -, hchecksum⟩ := h
  exact ⟨_, hchecksum rfl⟩

theorem ensures_discard (h : Smooth sys) (d : Directory) (name : Bytes) :
    (discard sys name).Ensures d fun v d' => v = .errored ∧ d'.files = Function.update d.files name .absent := by
  refine ⟨.errored, { d with files := Function.update d.files name .absent, asked := d.asked + 1 }, ?_, rfl, rfl⟩
  simp only [discard, removeFile, Act.run_bind, run_ask, h.remove, put, Act.run_modify, Act.run_pure, if_true]

theorem ensures_validateFileChecksum (h : Smooth sys) (d : Directory) {name : Bytes}
    (hname : d.files name = .regular content) (expected : Bytes) :
    (validateFileChecksum sys name expected).Ensures d fun ok d' =>
      (evp.hash content = expected → ok = true) ∧ d'.files = d.files := by
  refine ⟨decide (evp.hash content = expected),
    { d with openings := d.openings ++ [(name, .readable)], asked := d.asked + 1 }, ?_, decide_eq_true, rfl⟩
  simp only [validateFileChecksum, getFileSha256Checksum, openFile, Act.run_bind, Act.run_get, hname, run_ask,
    h.openFile, Act.run_modify, Act.run_pure, checksumLoop_eq_hash]

theorem ensures_checkFile (h : Smooth sys) (hother : d.files p.name ≠ .other)
    (hdecode : noChecksums = false → ∃ expected, Hex.decode p.expectedChecksum = .ok expected) :
    (checkFile sys noChecksums p).Ensures d fun v d' =>
      v ≠ .stop ∧ (d'.files = d.files ∨ d'.files = Function.update d.files p.name .absent) := by
  have hdiscard : ∀ d' : Directory, d'.files = d.files → (discard sys p.name).Ensures d' fun v d' =>
      v ≠ .stop ∧ (d'.files = d.files ∨ d'.files = Function.update d.files p.name .absent) := by
    intro d' hd'
    refine (ensures_discard h d' p.name).mono fun v d'' hv => ⟨by rw [hv.1]; decide, Or.inr ?_⟩
    rw [hv.2, hd']
  refine Act.Ensures.step (run_ask _ d) ?_
  rw [h.signalled, if_neg (by decide)]
  refine Act.Ensures.step (Act.run_get _) ?_
  cases hentry : d.files p.name with
  | other => exact absurd hentry hother
  | absent => exact Act.Ensures.pure ⟨by decide, Or.inl rfl⟩
  | regular content =>
      by_cases hsize : content.length = p.expectedSize
      · simp only [hsize, ne_eq, not_true_eq_false, if_false]
        cases noChecksums with
        | true => exact Act.Ensures.pure ⟨by decide, Or.inl rfl⟩
        | false =>
            obtain ⟨expected, hexpected⟩ := hdecode rfl
            refine Act.Ensures.step (run_expectedChecksum hexpected _) ?_
            have hvalidate := ensures_validateFileChecksum h { d with asked := d.asked + 1 } hentry expected
            refine hvalidate.bind fun ok d' hok => ?_
            cases ok with
            | true => exact Act.Ensures.pure ⟨by decide, Or.inl hok.2⟩
            | false => exact hdiscard d' hok.2
      · simp only [hsize, ne_eq, not_false_eq_true, if_true]
        exact hdiscard _ rfl

theorem ensures_checkLoop (h : Smooth sys) (l : List ParamFile) (hother : ∀ p ∈ l, d.files p.name ≠ .other)
    (hdecode : noChecksums = false → ∀ p ∈ l, ∃ expected, Hex.decode p.expectedChecksum = .ok expected) :
    (checkLoop sys noChecksums l).Ensures d fun r _ => ∃ errored, r = some errored := by
  induction l generalizing d with
  | nil => exact Act.Ensures.pure ⟨[], rfl⟩
  | cons p l ih =>
      rw [List.forall_mem_cons] at hother
      refine (ensures_checkFile h hother.1 fun hno => hdecode hno p List.mem_cons_self).bind fun v d' hv => ?_
      have hrest : (checkLoop sys noChecksums l).Ensures d' fun r _ => ∃ errored, r = some errored := by
        refine ih (fun q hq => ?_) fun hno q hq => hdecode hno q (List.mem_cons_of_mem p hq)
        rcases hv.2 with hsame | hupdate
        · exact hsame ▸ hother.2 q hq
        · rw [hupdate, Function.update_apply]
          split_ifs
          · decide
          · exact hother.2 q hq
      cases v with
      | stop => exact absurd rfl hv.1
      | fine => exact hrest
      | errored =>
          refine hrest.bind fun r d'' hr => ?_
          obtain ⟨errored, rfl⟩ := hr
          exact Act.Ensures.pure ⟨p :: errored, rfl⟩

theorem ensures_fetchFile (h : Smooth sys) (hserves : Serves sys p) (d : Directory) :
    (fetchFile sys p).Ensures d fun ok _ => ok = true := by
  obtain ⟨bytes, kept, hfetch, hheaders, hkept, content, hcontent, hsize, hchecksum⟩ := hserves (d.asked + 1)
  cases hcontent
  have hwritten : (written bytes).take kept = body bytes := by
    rw [written_of_headersInBlock hheaders, List.take_of_length_le hkept]
  refine Act.Ensures.step (run_ask _ d) ?_
  rw [h.signalled, if_neg (by decide)]
  have hdownload : (downloadParamFile sys p).run { d with asked := d.asked + 1 } =
      .ok true { d with files := Function.update d.files p.name (.regular (body bytes)), asked := d.asked + 2 } := by
    simp only [downloadParamFile, Act.run_bind, run_ask, hfetch, put, Act.run_modify, Act.run_pure, hwritten]
  refine Act.Ensures.step hdownload ?_
  rw [if_pos rfl]
  have hentry : (Function.update d.files p.name (.regular (body bytes))) p.name = .regular (body bytes) :=
    Function.update_self ..
  refine Act.Ensures.step (run_fileSize hentry) ?_
  rw [if_neg (not_not.mpr hsize)]
  refine Act.Ensures.step (run_expectedChecksum (hchecksum rfl) _) ?_
  exact (ensures_validateFileChecksum h _ hentry _).mono fun ok d' hok => hok.1 rfl

theorem ensures_fetchLoop (h : Smooth sys) (l : List ParamFile) (hserves : ∀ p ∈ l, Serves sys p) (d : Directory) :
    (fetchLoop sys l).Ensures d fun ok _ => ok = true := by
  induction l generalizing d with
  | nil => exact Act.Ensures.pure rfl
  | cons p l ih =>
      rw [List.forall_mem_cons] at hserves
      refine (ensures_fetchFile h hserves.1 d).bind fun ok d' hok => ?_
      rw [if_pos hok]
      exact ih hserves.2 d'

theorem ensures_validateFiles (h : Smooth sys) {paramFiles : List ParamFile} (hconfirm : ∀ n, sys.confirm n = true)
    (hserves : ∀ p ∈ paramFiles, Serves sys p) (hother : ∀ p ∈ paramFiles, d.files p.name ≠ .other)
    (hnodup : (paramFiles.map ParamFile.name).Nodup) :
    (validateFiles sys paramFiles noChecksums).Ensures d fun ok _ => ok = true := by
  have hdecode : ∀ p ∈ paramFiles, ∃ expected, Hex.decode p.expectedChecksum = .ok expected := by
    intro p hp
    obtain ⟨bytes, kept, -, -, -, hintact⟩ := hserves p hp 0
    exact hintact.decode
  obtain ⟨r, d₁, hrun, errored, rfl⟩ := ensures_checkLoop h paramFiles hother fun _ => hdecode
  have hwithin : Act.Within _ (checkLoop sys noChecksums paramFiles) d _ := within_checkLoop paramFiles hnodup rfl
  unfold Act.Within at hwithin
  rw [hrun] at hwithin
  obtain ⟨_, -, -, -, hfound⟩ := hwithin
  refine Act.Ensures.step hrun ?_
  cases errored with
  | nil => exact Act.Ensures.pure rfl
  | cons p rest =>
      refine Act.Ensures.step (run_ask _ d₁) ?_
      rw [hconfirm, if_pos rfl]
      exact ensures_fetchLoop h _ (fun q hq => hserves q ((hfound _ rfl).sublist.subset hq)) _

/-- A directory that is all right is left as it is. -/
theorem ensures_accepted (h : Smooth sys) {paramFiles : List ParamFile}
    (haccepted : ∀ p ∈ paramFiles, Accepted evp noChecksums p (d.files p.name))
    (hnodup : (paramFiles.map ParamFile.name).Nodup) :
    (validateFiles sys paramFiles noChecksums).Ensures d fun ok d' => ok = true ∧ d'.files = d.files := by
  have hother : ∀ p ∈ paramFiles, d.files p.name ≠ .other := by
    intro p hp hentry
    obtain ⟨content, hregular, -⟩ := haccepted p hp
    rw [hentry] at hregular
    cases hregular
  have hdecode : noChecksums = false → ∀ p ∈ paramFiles, ∃ expected, Hex.decode p.expectedChecksum = .ok expected := by
    rintro rfl p hp
    exact Intact.decode (haccepted p hp)
  obtain ⟨r, d₁, hrun, errored, rfl⟩ := ensures_checkLoop h paramFiles hother hdecode
  have hwithin : Act.Within _ (checkLoop sys noChecksums paramFiles) d _ := within_checkLoop paramFiles hnodup rfl
  unfold Act.Within at hwithin
  rw [hrun] at hwithin
  obtain ⟨openings, -, hasked, hchanged, hfound⟩ := hwithin
  -- every file could be opened
  have hnot : ∀ p ∈ paramFiles, ¬ Replaceable evp noChecksums p openings (d.files p.name) := by
    intro p hp hreplaceable
    obtain ⟨n, hclosed⟩ := hasked _ (hreplaceable.2 (haccepted p hp)).2
    rw [h.openFile] at hclosed
    cases hclosed
  have hsame : d₁.files = d.files := by
    funext name
    by_contra hne
    obtain ⟨p, hp, rfl, hreplaceable⟩ := hchanged name hne
    exact hnot p hp hreplaceable
  refine Act.Ensures.step hrun ?_
  cases errored with
  | nil => exact Act.Ensures.pure ⟨rfl, hsame⟩
  | cons p rest =>
      have hp : p ∈ p :: rest := List.mem_cons_self
      exact absurd ((hfound _ rfl).replaceable p hp) (hnot p ((hfound _ rfl).sublist.subset hp))

end Steps

theorem nodup_kParamFiles : (kParamFiles.map ParamFile.name).Nodup := by decide

example : ∀ p ∈ kParamFiles, (Hex.decode p.expectedChecksum).toOption.map List.length = some 32 := by decide

/-- **What a validation does**: however it ends, only parameter files have been touched, none of them was something
else than a file, and one that was accepted is lost only if this call has tried to open it and could not. After `true`
all of them are accepted, and those that are new have their checksum, even if no checksums were asked for. -/
theorem param_files_sound (evp : Evp) (sys : Surroundings evp) (noChecksums : Bool) (d : Directory) :
    (∃ openings, ((validateParamFiles sys noChecksums).run d).state.openings = d.openings ++ openings ∧
      Changed evp noChecksums openings kParamFiles d.files ((validateParamFiles sys noChecksums).run d).state.files) ∧
      ∀ d', (validateParamFiles sys noChecksums).run d = .ok true d' → ∀ p ∈ kParamFiles,
        Accepted evp noChecksums p (d'.files p.name) ∧
          (d'.files p.name ≠ d.files p.name → Intact evp p (d'.files p.name)) := by
  have h : Act.Within _ (validateParamFiles sys noChecksums) d _ := within_validateFiles nodup_kParamFiles d
  obtain ⟨openings, hopenings, -, hchanged⟩ := (h.mono fun _ _ hok => hok.1).state
  refine ⟨⟨openings, hopenings, hchanged⟩, fun d' hrun => ?_⟩
  unfold Act.Within at h
  rw [hrun] at h
  exact h.2 rfl

def twoBytes : ParamFile := ⟨ascii "two.params", ascii "02", 2⟩

def threeBytes : ParamFile := ⟨ascii "three.params", ascii "03", 3⟩

def okResponse (content : Bytes) : Bytes := ascii "HTTP/1.1 200 OK\r\n\r\n" ++ content

def smoothServer : Surroundings Evp.lengths where
  context := ([] : Bytes)
  signalled _ := false
  remove _ := .removed
  openFile _ := .readable
  confirm _ := true
  fetch _ r := .response (okResponse (if r = request twoBytes then [7, 9] else [7, 8, 9])) true 100

theorem smooth_smoothServer : Smooth smoothServer := ⟨fun _ => rfl, fun _ => rfl, fun _ => rfl⟩

theorem serves_smoothServer : ∀ p ∈ [twoBytes, threeBytes], Serves smoothServer p := by
  refine List.forall_mem_cons.mpr ⟨fun n => ?_, List.forall_mem_singleton.mpr fun n => ?_⟩
  · exact ⟨okResponse [7, 9], 100, rfl, by decide, by decide, [7, 9], by decide, rfl, fun _ => rfl⟩
  · exact ⟨okResponse [7, 8, 9], 100, rfl, by decide, by decide, [7, 8, 9], by decide, rfl, fun _ => rfl⟩

/-- One file is too long, and the other one is missing. -/
def longFile : Directory := { files := fun name => if name = twoBytes.name then .regular [1, 2, 3] else .absent }

theorem longFile_ne_other : ∀ p ∈ [twoBytes, threeBytes], longFile.files p.name ≠ .other := by decide

/-- **The next start**: a directory that was validated is validated again, without a question or a download, and is
left as it is, unless checksums are looked at that were not looked at before. -/
theorem param_files_again {evp : Evp} (sys sys' : Surroundings evp) (paramFiles : List ParamFile)
    (hnodup : (paramFiles.map ParamFile.name).Nodup) (noChecksums noChecksums' : Bool) (d d' : Directory)
    (hrun : (validateFiles sys paramFiles noChecksums).run d = .ok true d') (hsmooth : Smooth sys')
    (hchecks : noChecksums = true → noChecksums' = true) :
    ∃ d'', (validateFiles sys' paramFiles noChecksums').run d' = .ok true d'' ∧ d''.files = d'.files := by
  have h : Act.Within _ (validateFiles sys paramFiles noChecksums) d _ := within_validateFiles hnodup d
  unfold Act.Within at h
  rw [hrun] at h
  have haccepted : ∀ p ∈ paramFiles, Accepted evp noChecksums' p (d'.files p.name) := by
    intro p hp
    obtain ⟨content, hentry, hsize, hchecksum⟩ := (h.2 rfl p hp).1
    refine ⟨content, hentry, hsize, fun hfalse => hchecksum ?_⟩
    cases noChecksums with
    | false => rfl
    | true => rw [hchecks rfl] at hfalse; cases hfalse
  obtain ⟨ok, d'', hrun', rfl, hsame⟩ := ensures_accepted hsmooth haccepted hnodup
  exact ⟨d'', hrun', hsame⟩

theorem param_files_again_two : ∃ d' d'',
    (validateFiles smoothServer [twoBytes, threeBytes] false).run longFile = .ok true d' ∧
      (validateFiles smoothServer [twoBytes, threeBytes] false).run d' = .ok true d'' ∧ d''.files = d'.files := by
  have hfirst : (validateFiles smoothServer [twoBytes, threeBytes] false).Ensures longFile _ :=
    ensures_validateFiles smooth_smoothServer (fun _ => rfl) serves_smoothServer longFile_ne_other (by decide)
  obtain ⟨ok, d', hrun, rfl⟩ := hfirst
  obtain ⟨d'', hagain⟩ := param_files_again smoothServer smoothServer [twoBytes, threeBytes] (by decide)
    false false longFile d' hrun smooth_smoothServer (fun h => h)
  exact ⟨d', d'', hrun, hagain⟩

end Znode.Zk
