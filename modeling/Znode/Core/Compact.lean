import Mathlib
import Znode.Core.Stream

/-!
# Compact sizes

`writeCompact` and `readCompact` are the source's; `parseCompact` is what `readCompact` makes of the
bytes at the cursor (`readCompact_run`), as a function of the bytes alone.
More bytes after the ones it used do not change it (`parseCompact_append`), and it accepts exactly
the canonical encodings (`parseCompact_ok_iff`). `readCompact_ok_iff` says the same of the call, with and without
the range check, and `compact_codec` puts the writer and the reader together.
-/

namespace Znode.Core
open Znode.Lib

def serCompactSizeof (value : Nat) : Nat :=
  if value < 253 then 1
  else if value ≤ 0xFFFF then 3
  else if value ≤ 0xFFFFFFFF then 5
  else 9

def compactPrefix (numBytes : Nat) : UInt8 :=
  if numBytes = 3 then 253 else if numBytes = 5 then 254 else 255

def writeCompact (obj : Nat) : Ser Unit := do
  let casted := leBytes 8 obj
  let numBytes := serCompactSizeof obj
  if numBytes = 1 then
    pushBack (casted.headD 0)
  else
    pushBack (compactPrefix numBytes)
    write (casted.take (numBytes - 1))

/-- One longer form of `read_compact`: a number of `width` bytes, refused below `floor`, where a
shorter form exists. -/
def readCanonical (width floor : Nat) : Ser Nat := do
  let value ← readAs width
  if value < floor then throw (.ser .kNonCanonicalCompactSize)
  return value

def checkRange (rangeCheck : Bool) (ret : Nat) : Ser Nat := do
  if rangeCheck && ret > kMaxSerializedCompactSize then throw (.ser .kCompactSizeTooBig)
  return ret

def readCompact (rangeCheck : Bool := true) : Ser Nat := do
  let tag ← readAs 1
  let ret ←
    if tag < 253 then pure tag
    else if tag = 253 then readCanonical 2 253
    else if tag = 254 then readCanonical 4 0x10000
    else readCanonical 8 0x100000000
  checkRange rangeCheck ret

/-- `bind` of a `std::string`: its length as a compact size, then its bytes. -/
def bindString (action : Action) (object : Bytes) : Ser Bytes := do
  match action with
  | .kComputeSize => addSize (serCompactSizeof object.length + object.length); return object
  | .kSerialize =>
    writeCompact object.length
    write object
    return object
  | .kDeserialize =>
    let dataLength ← readCompact
    read (some dataLength)

/-! ## Reading, as a function of the bytes -/

/-- One longer form, on the bytes after the prefix. -/
def parseCanonical (width floor : Nat) (l : Bytes) : Except SerError (Nat × Nat) :=
  if l.length < width then .error .kReadOverflow
  else if leVal (l.take width) < floor then .error .kNonCanonicalCompactSize
  else if leVal (l.take width) > kMaxSerializedCompactSize then .error .kCompactSizeTooBig
  else .ok (leVal (l.take width), width + 1)

/-- The value at the head of `l` and the number of bytes it takes, range checked. -/
def parseCompact : Bytes → Except SerError (Nat × Nat)
  | [] => .error .kReadOverflow
  | b :: l =>
    if b.toNat < 253 then .ok (b.toNat, 1)
    else if b.toNat = 253 then parseCanonical 2 253 l
    else if b.toNat = 254 then parseCanonical 4 0x10000 l
    else parseCanonical 8 0x100000000 l

theorem parseCanonical_append {width floor : Nat} {l : Bytes}
    (h : parseCanonical width floor l ≠ .error .kReadOverflow) (r : Bytes) :
    parseCanonical width floor (l ++ r) = parseCanonical width floor l := by
  have hl : width ≤ l.length := by
    by_contra hlt
    exact h (if_pos (by omega))
  unfold parseCanonical
  rw [List.take_append_of_le_length hl, if_neg (by simp; omega), if_neg (by omega : ¬ l.length < width)]

/-- **More bytes do not change what was read.** -/
theorem parseCompact_append {l : Bytes} (h : parseCompact l ≠ .error .kReadOverflow) (r : Bytes) :
    parseCompact (l ++ r) = parseCompact l := by
  cases l with
  | nil => exact absurd rfl h
  | cons b l =>
      simp only [List.cons_append, parseCompact] at h ⊢
      split_ifs at h ⊢
      · rfl
      all_goals exact parseCanonical_append h r

theorem parseCanonical_ok {width floor v n : Nat} {l : Bytes}
    (h : parseCanonical width floor l = .ok (v, n)) :
    n = width + 1 ∧ width ≤ l.length ∧ v = leVal (l.take width) ∧ floor ≤ v ∧
      v ≤ kMaxSerializedCompactSize := by
  unfold parseCanonical at h
  split_ifs at h
  cases h
  exact ⟨rfl, by omega, rfl, by omega, by omega⟩

theorem parseCanonical_overflow {width floor : Nat} {l : Bytes}
    (h : parseCanonical width floor l = .error .kReadOverflow) : l.length < width := by
  unfold parseCanonical at h
  split_ifs at h with h1 h2 h3
  · exact h1
  · cases h
  · cases h

/-- Only fewer than nine bytes can be too few. -/
theorem parseCompact_overflow {l : Bytes} (h : parseCompact l = .error .kReadOverflow) :
    l.length < 9 := by
  cases l with
  | nil => simp
  | cons b l =>
      simp only [parseCompact] at h
      split_ifs at h
      all_goals
        have := parseCanonical_overflow h
        simp
        omega

/-! ## The canonical encoding -/

/-- The bytes `write_compact` appends for `v`. -/
def compactBytes (v : Nat) : Bytes :=
  if serCompactSizeof v = 1 then leBytes 1 v
  else compactPrefix (serCompactSizeof v) :: leBytes (serCompactSizeof v - 1) v

theorem serCompactSizeof_cases (v : Nat) :
    (v < 253 ∧ serCompactSizeof v = 1) ∨ (253 ≤ v ∧ v < 256 ^ 2 ∧ serCompactSizeof v = 3) ∨
      (256 ^ 2 ≤ v ∧ v < 256 ^ 4 ∧ serCompactSizeof v = 5) ∨ (256 ^ 4 ≤ v ∧ serCompactSizeof v = 9) := by
  unfold serCompactSizeof
  split_ifs <;> omega

theorem serCompactSizeof_le (v : Nat) : serCompactSizeof v ≤ 9 := by
  unfold serCompactSizeof
  split_ifs <;> omega

theorem serCompactSizeof_pos (n : Nat) : 0 < serCompactSizeof n := by
  unfold serCompactSizeof
  split_ifs <;> decide

theorem serCompactSizeof_mono {v w : Nat} (h : v ≤ w) : serCompactSizeof v ≤ serCompactSizeof w := by
  unfold serCompactSizeof
  split_ifs <;> omega

@[simp] theorem length_compactBytes (v : Nat) : (compactBytes v).length = serCompactSizeof v := by
  unfold compactBytes
  rcases serCompactSizeof_cases v with h | h | h | h <;> simp [h]

theorem parseCanonical_leBytes {v : Nat} (width floor : Nat) (r : Bytes) (hf : floor ≤ v) (hw : v < 256 ^ width)
    (hv : v ≤ kMaxSerializedCompactSize) :
    parseCanonical width floor (leBytes width v ++ r) = .ok (v, width + 1) := by
  have htake : (leBytes width v ++ r).take width = leBytes width v := by
    rw [List.take_append_of_le_length (by simp), List.take_of_length_le (by simp)]
  unfold parseCanonical
  rw [htake, leVal_leBytes hw, if_neg (by simp), if_neg (by omega), if_neg (by omega)]

theorem parseCompact_compactBytes {v : Nat} (hv : v ≤ kMaxSerializedCompactSize) (r : Bytes) :
    parseCompact (compactBytes v ++ r) = .ok (v, serCompactSizeof v) := by
  unfold compactBytes
  rcases serCompactSizeof_cases v with h | h | h | h
  · have hb : (UInt8.ofNat v).toNat = v := by
      rw [UInt8.toNat_ofNat']
      omega
    simp [h, leBytes, parseCompact, hb]
  · have hc := parseCanonical_leBytes 2 253 r h.1 h.2.1 hv
    simp [h, compactPrefix, parseCompact, hc]
  · have hc := parseCanonical_leBytes 4 0x10000 r h.1 h.2.1 hv
    simp [h, compactPrefix, parseCompact, hc]
  · unfold kMaxSerializedCompactSize at hv
    omega

/-- The encoding of a value above the limit is written, and refused. -/
theorem parseCompact_of_gt {v : Nat} (hv : kMaxSerializedCompactSize < v) (hw : v < 256 ^ 4) (r : Bytes) :
    parseCompact (compactBytes v ++ r) = .error .kCompactSizeTooBig := by
  unfold kMaxSerializedCompactSize at hv
  have hsize : serCompactSizeof v = 5 := by
    rcases serCompactSizeof_cases v with h | h | h | h <;> omega
  have htake : (leBytes 4 v ++ r).take 4 = leBytes 4 v := by
    rw [List.take_append_of_le_length (by simp), List.take_of_length_le (by simp)]
  have hc : parseCanonical 4 0x10000 (leBytes 4 v ++ r) = .error .kCompactSizeTooBig := by
    unfold parseCanonical kMaxSerializedCompactSize
    rw [htake, leVal_leBytes hw, if_neg (by simp), if_neg (by omega), if_pos hv]
  simp [compactBytes, hsize, compactPrefix, parseCompact, hc]

/-- A longer form holds at least its floor and at most its width, which is the size class of its
value: it is the canonical encoding. -/
theorem compactBytes_leVal {b : UInt8} {t : Bytes} (width floor : Nat) (hb : b = compactPrefix (width + 1))
    (hw : 1 ≤ width) (hsize : ∀ u, floor ≤ u → u < 256 ^ width → serCompactSizeof u = width + 1)
    (hlen : width ≤ t.length) (hfloor : floor ≤ leVal (t.take width)) :
    serCompactSizeof (leVal (t.take width)) = width + 1 ∧
      b :: t = compactBytes (leVal (t.take width)) ++ t.drop width := by
  have hlt := leVal_lt (t.take width)
  rw [List.length_take, Nat.min_eq_left hlen] at hlt
  have hs := hsize _ hfloor hlt
  refine ⟨hs, ?_⟩
  unfold compactBytes
  rw [hs, if_neg (by omega), hb, Nat.add_sub_cancel, leBytes_leVal (by simp [hlen]),
    List.cons_append, List.take_append_drop]

theorem serCompactSizeof_eq_three {u : Nat} (h : 253 ≤ u) (hlt : u < 256 ^ 2) : serCompactSizeof u = 2 + 1 := by
  rcases serCompactSizeof_cases u with h | h | h | h <;> omega

theorem serCompactSizeof_eq_five {u : Nat} (h : 0x10000 ≤ u) (hlt : u < 256 ^ 4) : serCompactSizeof u = 4 + 1 := by
  rcases serCompactSizeof_cases u with h | h | h | h <;> omega

theorem serCompactSizeof_eq_nine {u : Nat} (h : 0x100000000 ≤ u) : serCompactSizeof u = 8 + 1 := by
  rcases serCompactSizeof_cases u with h | h | h | h <;> omega

theorem parseCanonical_canonical {b : UInt8} {t : Bytes} {v n : Nat} (width floor : Nat)
    (hb : b = compactPrefix (width + 1)) (hw : 1 ≤ width)
    (hsize : ∀ u, floor ≤ u → u < 256 ^ width → serCompactSizeof u = width + 1)
    (hp : parseCanonical width floor t = .ok (v, n)) :
    v ≤ kMaxSerializedCompactSize ∧ n = serCompactSizeof v ∧ ∃ r, b :: t = compactBytes v ++ r := by
  obtain ⟨rfl, hlen, rfl, hfloor, hmax⟩ := parseCanonical_ok hp
  obtain ⟨hs, hbytes⟩ := compactBytes_leVal width floor hb hw hsize hlen hfloor
  exact ⟨hmax, hs.symm, t.drop width, hbytes⟩

/-- **Exactly the canonical encodings are accepted.** -/
theorem parseCompact_ok_iff {l : Bytes} {v n : Nat} : parseCompact l = .ok (v, n) ↔
    v ≤ kMaxSerializedCompactSize ∧ n = serCompactSizeof v ∧ ∃ r, l = compactBytes v ++ r := by
  constructor
  · intro h
    cases l with
    | nil => cases h
    | cons b l =>
        simp only [parseCompact] at h
        split_ifs at h with h1 h2 h3
        · cases h
          refine ⟨by unfold kMaxSerializedCompactSize; omega, by simp [serCompactSizeof, h1], l, ?_⟩
          simp [compactBytes, serCompactSizeof, h1, leBytes]
        · exact parseCanonical_canonical 2 253 (UInt8.toNat_inj.mp h2) (by decide)
            (fun _ => serCompactSizeof_eq_three) h
        · exact parseCanonical_canonical 4 0x10000 (UInt8.toNat_inj.mp h3) (by decide)
            (fun _ => serCompactSizeof_eq_five) h
        · have h255 : b.toNat = 255 := by
            have := b.toNat_lt
            omega
          exact parseCanonical_canonical 8 0x100000000 (UInt8.toNat_inj.mp h255) (by decide)
            (fun _ hle _ => serCompactSizeof_eq_nine hle) h
  · rintro ⟨hv, rfl, r, rfl⟩
    exact parseCompact_compactBytes hv r

theorem parseCompact_le_length {l : Bytes} {v n : Nat} (h : parseCompact l = .ok (v, n)) : n ≤ l.length := by
  obtain ⟨-, rfl, r, rfl⟩ := parseCompact_ok_iff.mp h
  simp

/-! ## The calls on a stream -/

theorem readAs_run_of_le {n : Nat} {s : SDataStream} (h : s.readPosition + n ≤ s.buffer.length) :
    (readAs n).run s =
      .ok (leVal (slice s.buffer s.readPosition n)) { s with readPosition := s.readPosition + n } := by
  simp [readAs, read_run_of_le h]

theorem readAs_run_of_lt {n : Nat} {s : SDataStream} (hp : s.readPosition ≤ s.buffer.length)
    (h : s.buffer.length < s.readPosition + n) :
    (readAs n).run s = .error (.ser .kReadOverflow) s := by
  simp [readAs, read_run_of_lt hp h]

def SDataStream.atPos (s : SDataStream) (p : Nat) : SDataStream := { s with readPosition := p }

theorem readCompact_eq (rangeCheck : Bool) : readCompact rangeCheck = readAs 1 >>= fun tag =>
    if tag < 253 then checkRange rangeCheck tag
    else if tag = 253 then readCanonical 2 253 >>= checkRange rangeCheck
    else if tag = 254 then readCanonical 4 0x10000 >>= checkRange rangeCheck
    else readCanonical 8 0x100000000 >>= checkRange rangeCheck := rfl

theorem checkRange_run (v : Nat) (s : SDataStream) : (checkRange true v).run s =
    if v > kMaxSerializedCompactSize then .error (.ser .kCompactSizeTooBig) s else .ok v s := by
  unfold checkRange
  by_cases h : v > kMaxSerializedCompactSize <;> simp [h]

theorem readCanonical_run (width floor : Nat) (s : SDataStream) (hp : s.readPosition ≤ s.buffer.length) :
    match parseCanonical width floor (s.buffer.drop s.readPosition) with
    | .ok (v, n) => (readCanonical width floor >>= checkRange true).run s = .ok v (s.atPos (s.readPosition + (n - 1)))
    | .error e => ∃ p ≤ s.buffer.length,
      (readCanonical width floor >>= checkRange true).run s = .error (.ser e) (s.atPos p) := by
  unfold parseCanonical readCanonical
  by_cases h : s.buffer.length < s.readPosition + width
  · rw [if_pos (by simp; omega)]
    exact ⟨s.readPosition, hp, by simp [readAs_run_of_lt hp h, SDataStream.atPos]⟩
  · have hread := readAs_run_of_le (n := width) (s := s) (by omega)
    rw [slice] at hread
    rw [if_neg (by simp; omega)]
    split_ifs with hfloor hmax
    · exact ⟨s.readPosition + width, by omega, by simp [hread, hfloor, SDataStream.atPos]⟩
    · exact ⟨s.readPosition + width, by omega, by
        simp [hread, hfloor, checkRange_run, if_pos hmax, SDataStream.atPos]⟩
    · simp [hread, hfloor, checkRange_run, if_neg hmax, SDataStream.atPos]

theorem readAs_one_run {s : SDataStream} {b : UInt8} {l : Bytes} (hd : s.buffer.drop s.readPosition = b :: l) :
    s.readPosition + 1 ≤ s.buffer.length ∧ s.buffer.drop (s.readPosition + 1) = l ∧
      (readAs 1).run s = .ok b.toNat (s.atPos (s.readPosition + 1)) := by
  have hlen : s.readPosition + 1 ≤ s.buffer.length := by
    have := congrArg List.length hd
    simp at this
    omega
  refine ⟨hlen, ?_, ?_⟩
  · rw [← List.drop_drop, hd]
    rfl
  · rw [readAs_run_of_le hlen, show slice s.buffer s.readPosition 1 = [b] by simp [slice, hd]]
    simp [leVal, SDataStream.atPos]

/-- **`read_compact` on a stream** reads what `parseCompact` makes of the bytes at the cursor. -/
theorem readCompact_run (s : SDataStream) (hp : s.readPosition ≤ s.buffer.length) :
    match parseCompact (s.buffer.drop s.readPosition) with
    | .ok (v, n) => readCompact.run s = .ok v (s.atPos (s.readPosition + n))
    | .error e => ∃ p ≤ s.buffer.length, readCompact.run s = .error (.ser e) (s.atPos p) := by
  rw [readCompact_eq]
  cases hd : s.buffer.drop s.readPosition with
  | nil =>
      have hlen : s.buffer.length ≤ s.readPosition := List.drop_eq_nil_iff.mp hd
      refine ⟨s.readPosition, hp, ?_⟩
      simp [readAs_run_of_lt hp (n := 1) (by omega), SDataStream.atPos]
  | cons b l =>
      obtain ⟨hlen, hnext, htag⟩ := readAs_one_run hd
      -- after the prefix byte the longer forms read the rest of the bytes
      have hlong : ∀ width floor, match parseCanonical width floor l with
          | .ok (v, n) => (readCanonical width floor >>= checkRange true).run (s.atPos (s.readPosition + 1)) =
              .ok v (s.atPos (s.readPosition + n))
          | .error e => ∃ p ≤ s.buffer.length,
              (readCanonical width floor >>= checkRange true).run (s.atPos (s.readPosition + 1)) =
                .error (.ser e) (s.atPos p) := by
        intro width floor
        have h := readCanonical_run width floor (s.atPos (s.readPosition + 1)) hlen
        simp only [SDataStream.atPos, hnext] at h ⊢
        cases hc : parseCanonical width floor l with
        | error e => simpa [hc] using h
        | ok vn =>
            have hn := (parseCanonical_ok hc).1
            simp only [hc] at h
            rw [h, show s.readPosition + 1 + (vn.2 - 1) = s.readPosition + vn.2 by omega]
      rw [EStateM.run_bind, htag]
      simp only [parseCompact]
      split_ifs with h1 h2 h3
      · rw [checkRange_run, if_neg (by unfold kMaxSerializedCompactSize; omega)]
      · exact hlong 2 253
      · exact hlong 4 0x10000
      · exact hlong 8 0x100000000

/-! ## The codec, with and without the range check -/

theorem checkRange_ok_iff {rangeCheck : Bool} {u v : Nat} {s s' : SDataStream} :
    (checkRange rangeCheck v).run s = .ok u s' ↔
      (rangeCheck = true → v ≤ kMaxSerializedCompactSize) ∧ u = v ∧ s' = s := by
  cases rangeCheck with
  | false => simp [checkRange, eq_comm]
  | true =>
      rw [checkRange_run]
      split_ifs with h
      · simp [h]
      · simp [not_lt.mp h, eq_comm]

theorem readCanonical_ok_iff {width floor v : Nat} {s s' : SDataStream} (hp : s.readPosition ≤ s.buffer.length) :
    (readCanonical width floor).run s = .ok v s' ↔
      s.readPosition + width ≤ s.buffer.length ∧ floor ≤ leVal (slice s.buffer s.readPosition width) ∧
        v = leVal (slice s.buffer s.readPosition width) ∧ s' = s.atPos (s.readPosition + width) := by
  unfold readCanonical
  by_cases hlen : s.readPosition + width ≤ s.buffer.length
  · by_cases hfloor : leVal (slice s.buffer s.readPosition width) < floor
    · simp [readAs_run_of_le hlen, hfloor]
    · simp [readAs_run_of_le hlen, hfloor, hlen, not_lt.mp hfloor, SDataStream.atPos, eq_comm]
  · simp [readAs_run_of_lt hp (not_le.mp hlen), hlen]

/-- A form of `width` bytes and no less than `floor` among the bytes `l` after the prefix. -/
def HoldsForm (width floor : Nat) (l : Bytes) (v : Nat) : Prop :=
  width ≤ l.length ∧ floor ≤ leVal (l.take width) ∧ v = leVal (l.take width)

theorem checkRange_false : checkRange false = pure := by
  funext v
  simp [checkRange]

theorem readCompact_eq_bind (rangeCheck : Bool) :
    readCompact rangeCheck = readCompact false >>= checkRange rangeCheck := by
  rw [readCompact_eq, readCompact_eq, checkRange_false, bind_assoc]
  congr 1
  funext tag
  split_ifs <;> simp

theorem readCompact_cons_ok_iff {v : Nat} {s s' : SDataStream} {b : UInt8} {l : Bytes}
    (hd : s.buffer.drop s.readPosition = b :: l) : (readCompact false).run s = .ok v s' ↔
      if b.toNat < 253 then v = b.toNat ∧ s' = s.atPos (s.readPosition + 1)
      else if b.toNat = 253 then HoldsForm 2 253 l v ∧ s' = s.atPos (s.readPosition + 3)
      else if b.toNat = 254 then HoldsForm 4 0x10000 l v ∧ s' = s.atPos (s.readPosition + 5)
      else HoldsForm 8 0x100000000 l v ∧ s' = s.atPos (s.readPosition + 9) := by
  obtain ⟨hlen, hnext, htag⟩ := readAs_one_run hd
  have hlong : ∀ width floor, (readCanonical width floor >>= checkRange false).run (s.atPos (s.readPosition + 1)) =
      .ok v s' ↔ HoldsForm width floor l v ∧ s' = s.atPos (s.readPosition + (width + 1)) := by
    intro width floor
    have hslice : slice s.buffer (s.readPosition + 1) width = l.take width := by rw [slice, hnext]
    have hfits : s.readPosition + (width + 1) ≤ s.buffer.length ↔ width ≤ l.length := by
      rw [← hnext, List.length_drop]
      omega
    rw [checkRange_false, bind_pure, readCanonical_ok_iff hlen]
    simp only [SDataStream.atPos, hslice, hfits, HoldsForm, and_assoc, Nat.add_assoc, Nat.add_comm 1]
  rw [readCompact_eq, EStateM.run_bind, htag]
  simp only
  split_ifs
  · rw [checkRange_ok_iff]
    simp
  · exact hlong 2 253
  · exact hlong 4 0x10000
  · exact hlong 8 0x100000000

/-- A longer form and the canonical encoding are the same bytes. -/
theorem holdsForm_iff {b : UInt8} {l : Bytes} {v : Nat} (width floor : Nat) (hb : b = compactPrefix (width + 1))
    (hw : 1 ≤ width) (hsize : ∀ u, floor ≤ u → u < 256 ^ width → serCompactSizeof u = width + 1) :
    HoldsForm width floor l v ↔ floor ≤ v ∧ v < 256 ^ width ∧ ∃ r, b :: l = compactBytes v ++ r := by
  constructor
  · rintro ⟨hlen, hfloor, rfl⟩
    have hlt := leVal_lt (l.take width)
    rw [List.length_take, Nat.min_eq_left hlen] at hlt
    exact ⟨hfloor, hlt, l.drop width, (compactBytes_leVal width floor hb hw hsize hlen hfloor).2⟩
  · rintro ⟨hfloor, hlt, r, hbytes⟩
    have hl : l = leBytes width v ++ r := by
      rw [compactBytes, hsize v hfloor hlt, if_neg (by omega), Nat.add_sub_cancel, List.cons_append] at hbytes
      exact (List.cons.inj hbytes).2
    have htake : l.take width = leBytes width v := by rw [hl, List.take_left' (length_leBytes width v)]
    refine ⟨by simp [hl], ?_, ?_⟩
    · rw [htake, leVal_leBytes hlt]
      exact hfloor
    · rw [htake, leVal_leBytes hlt]

/-- The first byte of an encoding tells its form. -/
theorem compactBytes_head {b : UInt8} {l r : Bytes} {v : Nat} (h : b :: l = compactBytes v ++ r) :
    b = if serCompactSizeof v = 1 then UInt8.ofNat v else compactPrefix (serCompactSizeof v) := by
  unfold compactBytes at h
  split_ifs at h ⊢
  · exact (List.cons.inj h).1
  · exact (List.cons.inj h).1

theorem readCompact_unchecked_ok_iff {v : Nat} {s s' : SDataStream} (hp : s.readPosition ≤ s.buffer.length) :
    (readCompact false).run s = .ok v s' ↔
      v < 256 ^ 8 ∧ (∃ r, s.buffer.drop s.readPosition = compactBytes v ++ r) ∧
        s' = s.atPos (s.readPosition + serCompactSizeof v) := by
  cases hd : s.buffer.drop s.readPosition with
  | nil =>
      have hlen : s.buffer.length ≤ s.readPosition := List.drop_eq_nil_iff.mp hd
      refine iff_of_false ?_ ?_
      · simp [readCompact_eq, readAs_run_of_lt hp (n := 1) (by omega)]
      · rintro ⟨-, ⟨r, hr⟩, -⟩
        have := congrArg List.length hr
        have := serCompactSizeof_pos v
        simp at *
        omega
  | cons b l =>
      rw [readCompact_cons_ok_iff hd]
      -- the three longer forms, each with the prefix that stands for it
      have h3 := holdsForm_iff (b := 253) (l := l) (v := v) 2 253 rfl (by decide) fun _ => serCompactSizeof_eq_three
      have h5 := holdsForm_iff (b := 254) (l := l) (v := v) 4 0x10000 rfl (by decide) fun _ => serCompactSizeof_eq_five
      have h9 := holdsForm_iff (b := 255) (l := l) (v := v) 8 0x100000000 rfl (by decide)
        fun _ hle _ => serCompactSizeof_eq_nine hle
      constructor
      · intro h
        split_ifs at h with h1 h2 h4
        · obtain ⟨rfl, rfl⟩ := h
          have hs : serCompactSizeof b.toNat = 1 := if_pos h1
          exact ⟨by omega, ⟨l, by simp [compactBytes, hs, leBytes]⟩, by rw [hs]⟩
        · obtain rfl : b = 253 := UInt8.toNat_inj.mp h2
          obtain ⟨hle, hlt, hr⟩ := h3.mp h.1
          exact ⟨by omega, hr, by rw [serCompactSizeof_eq_three hle hlt]; exact h.2⟩
        · obtain rfl : b = 254 := UInt8.toNat_inj.mp h4
          obtain ⟨hle, hlt, hr⟩ := h5.mp h.1
          exact ⟨by omega, hr, by rw [serCompactSizeof_eq_five hle hlt]; exact h.2⟩
        · obtain rfl : b = 255 := UInt8.toNat_inj.mp (by have := b.toNat_lt; change b.toNat = 255; omega)
          obtain ⟨hle, hlt, hr⟩ := h9.mp h.1
          exact ⟨hlt, hr, by rw [serCompactSizeof_eq_nine hle]; exact h.2⟩
      · rintro ⟨hv, ⟨r, hr⟩, rfl⟩
        have hb := compactBytes_head hr
        rcases serCompactSizeof_cases v with ⟨hlt, hs⟩ | ⟨hle, hlt, hs⟩ | ⟨hle, hlt, hs⟩ | ⟨hle, hs⟩
        all_goals
          rw [hs] at hb ⊢
          subst hb
        · have htoNat : (UInt8.ofNat v).toNat = v := by
            rw [UInt8.toNat_ofNat']
            omega
          rw [if_pos rfl, htoNat, if_pos hlt]
          exact ⟨rfl, rfl⟩
        · exact ⟨h3.mpr ⟨hle, hlt, r, hr⟩, rfl⟩
        · exact ⟨h5.mpr ⟨hle, hlt, r, hr⟩, rfl⟩
        · exact ⟨h9.mpr ⟨hle, hv, r, hr⟩, rfl⟩

/-- **`read_compact` succeeds exactly on the canonical encodings**, and takes exactly their bytes. -/
theorem readCompact_ok_iff {rangeCheck : Bool} {v : Nat} {s s' : SDataStream} (hp : s.readPosition ≤ s.buffer.length) :
    (readCompact rangeCheck).run s = .ok v s' ↔
      (rangeCheck = true → v ≤ kMaxSerializedCompactSize) ∧ v < 256 ^ 8 ∧
        (∃ r, s.buffer.drop s.readPosition = compactBytes v ++ r) ∧
        s' = s.atPos (s.readPosition + serCompactSizeof v) := by
  rw [readCompact_eq_bind, ← readCompact_unchecked_ok_iff hp, EStateM.run_bind]
  cases hread : (readCompact false).run s with
  | error e s₁ => simp
  | ok u s₁ =>
      rw [checkRange_ok_iff]
      constructor
      · rintro ⟨hmax, rfl, rfl⟩
        exact ⟨hmax, rfl⟩
      · rintro ⟨hmax, h⟩
        cases h
        exact ⟨hmax, rfl, rfl⟩

/-- **`write_compact` on a stream** appends the encoding. When there is no room for a longer form, only its prefix
was appended. -/
theorem writeCompact_run (v : Nat) (s : SDataStream) : (writeCompact v).run s =
    if 1 < serCompactSizeof v ∧ kMaxStreamSize < s.size + serCompactSizeof v then
      .error (.ser .kInputTooLarge) { s with buffer := s.buffer ++ [compactPrefix (serCompactSizeof v)] }
    else .ok () { s with buffer := s.buffer ++ compactBytes v } := by
  by_cases hs : serCompactSizeof v = 1
  · rw [if_neg (by omega), writeCompact, if_pos hs, compactBytes, if_pos hs]
    rfl
  · have hpos := serCompactSizeof_pos v
    have hle := serCompactSizeof_le v
    rw [writeCompact, if_neg hs, compactBytes, if_neg hs, take_leBytes (by omega), EStateM.run_bind]
    change (write _).run { s with buffer := s.buffer ++ [compactPrefix (serCompactSizeof v)] } = _
    have hlen : (s.buffer ++ [compactPrefix (serCompactSizeof v)]).length +
        (leBytes (serCompactSizeof v - 1) v).length = s.size + serCompactSizeof v := by
      simp only [List.length_append, List.length_singleton, length_leBytes, SDataStream.size]
      omega
    rw [write_run, hlen]
    by_cases hfull : kMaxStreamSize < s.size + serCompactSizeof v
    · rw [if_pos hfull, if_pos ⟨by omega, hfull⟩]
    · rw [if_neg hfull, if_neg (by omega), List.append_assoc, List.singleton_append]

/-- **The compact size codec.** Writing appends the encoding of a value, whose length is the one computed for it.
Reading the encoding, whatever follows, gives the value back and takes these bytes; the range check refuses the
values above the limit. What is read successfully is the encoding of the value read. -/
theorem compact_codec (v : UInt64) :
    (∀ s : SDataStream, (writeCompact v.toNat).run s =
      if 1 < serCompactSizeof v.toNat ∧ kMaxStreamSize < s.size + serCompactSizeof v.toNat then
        .error (.ser .kInputTooLarge) { s with buffer := s.buffer ++ [compactPrefix (serCompactSizeof v.toNat)] }
      else .ok () { s with buffer := s.buffer ++ compactBytes v.toNat }) ∧
    (compactBytes v.toNat).length = serCompactSizeof v.toNat ∧
    (∀ (s : SDataStream) (r : Bytes), s.readPosition ≤ s.size →
      s.buffer.drop s.readPosition = compactBytes v.toNat ++ r →
        (readCompact false).run s = .ok v.toNat (s.atPos (s.readPosition + serCompactSizeof v.toNat)) ∧
        ((∃ u s', (readCompact true).run s = .ok u s') ↔ v.toNat ≤ kMaxSerializedCompactSize)) ∧
    (∀ (rangeCheck : Bool) (s s' : SDataStream) (u : Nat), s.readPosition ≤ s.size →
      (readCompact rangeCheck).run s = .ok u s' →
        u < 2 ^ 64 ∧ s' = s.atPos (s.readPosition + (compactBytes u).length) ∧
        slice s.buffer s.readPosition (compactBytes u).length = compactBytes u) := by
  refine ⟨writeCompact_run v.toNat, length_compactBytes v.toNat, ?_, ?_⟩
  · intro s r hp hr
    have hread : (readCompact false).run s = .ok v.toNat (s.atPos (s.readPosition + serCompactSizeof v.toNat)) :=
      (readCompact_unchecked_ok_iff hp).mpr ⟨v.toNat_lt, ⟨r, hr⟩, rfl⟩
    refine ⟨hread, ?_⟩
    constructor
    · rintro ⟨u, s', hok⟩
      rw [readCompact_eq_bind, EStateM.run_bind, hread] at hok
      exact (checkRange_ok_iff.mp hok).1 rfl
    · intro hmax
      exact ⟨_, _, (readCompact_ok_iff hp).mpr ⟨fun _ => hmax, v.toNat_lt, ⟨r, hr⟩, rfl⟩⟩
  · intro rangeCheck s s' u hp hok
    obtain ⟨-, hu, ⟨r, hr⟩, rfl⟩ := (readCompact_ok_iff hp).mp hok
    refine ⟨hu, by rw [length_compactBytes], ?_⟩
    rw [slice, hr, List.take_left]

end Znode.Core
