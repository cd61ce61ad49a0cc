import Mathlib
import Znode.Core.Hex
import Znode.Lib.BigEndian
import Znode.Lib.Text

/-!
# Base58

`enc::base58`: bytes as a number in base 58, the zero bytes in front as as many `1`s.

* `encode`, `decode` : the number is read by multiplication, written by division (`divLoop`), and the zeros in front
  are counted apart (`addLeading`). Both are the change of base `recode` between characters
  (`encode_eq`, `decode_digits`);
* `base58_codec` : each undoes the other, and `decode` refuses characters outside the alphabet only;
* `encodeCheck`, `decodeCheck` : with four bytes of the digest at the end, for an arbitrary digest;
* `base58_check` : `decodeCheck` accepts what `encodeCheck` makes, and nothing else.
-/

namespace Znode.Core.Base58
open Znode.Lib Znode.Core.Hex

def kBase58Digits : Bytes := ascii "123456789ABCDEFGHJKLMNPQRSTUVWXYZabcdefghijkmnopqrstuvwxyz"

def kCheckSumLength : Nat := 4

/-- `1_KiB`, the longest input of `encode`. -/
def kMaxInput : Nat := 1024

def base58Digit (rem : Nat) : UInt8 := kBase58Digits.getD rem 0

/-- The loop over the input that ends at the first character other than `mark`. -/
def addLeading (mark fill : UInt8) : Bytes → Bytes → Bytes
  | [], out => out
  | c :: input, out => if c ≠ mark then out else addLeading mark fill input (fill :: out)

def encode (input : Bytes) : Except EncError Bytes :=
  if input.isEmpty then .ok []
  else if input.length > kMaxInput then .error .kInputTooLarge
  else
    let value := input.foldl (fun value byte => value <<< 8 + byte.toNat) 0
    let encoded := divLoop 58 Nat.one_lt_ofNat base58Digit value []
    .ok (addLeading 0x00 49 input encoded)

def readDigits : Bytes → Nat → Except EncError Nat
  | [], value => .ok value
  | chr :: input, value =>
    match kBase58Digits.idxOf? chr with
    | none => .error .kIllegalBase58Digit
    | some pos => readDigits input (value * 58 + pos)

def decode (input : Bytes) : Except EncError Bytes :=
  if input.isEmpty then .ok []
  else do
    let value ← readDigits input 0
    let decoded := divLoop 256 Nat.one_lt_ofNat UInt8.ofNat value []
    return addLeading 49 0x00 input decoded

def encodeCheck (sha256 : Bytes → Octets 32) (input : Bytes) : Except EncError Bytes :=
  encode (input ++ (sha256 input).val.take kCheckSumLength)

def decodeCheck (sha256 : Bytes → Octets 32) (input : Bytes) : Except EncError Bytes := do
  let decoded ← decode input
  if decoded.length < kCheckSumLength then throw .kInputTooNarrow
  else
    let original := decoded.take (decoded.length - kCheckSumLength)
    let checksum := decoded.drop (decoded.length - kCheckSumLength)
    if !checksum.isPrefixOf (sha256 original).val then throw .kIllegalBase58Digit
    else return original

/-! ## The alphabet -/

theorem idxOf?_base58Digit {d : Nat} (h : d < 58) : kBase58Digits.idxOf? (base58Digit d) = some d := by
  have hall : ∀ d < 58, kBase58Digits.idxOf? (base58Digit d) = some d := by decide +kernel
  exact hall d h

theorem eq_base58Digit {c : UInt8} {d : Nat} (h : kBase58Digits.idxOf? c = some d) : d < 58 ∧ base58Digit d = c := by
  obtain ⟨hlt, hc, -⟩ := List.findIdx?_eq_some_iff_getElem.mp h
  refine ⟨hlt, ?_⟩
  rw [base58Digit, List.getD_eq_getElem _ _ hlt]
  exact beq_iff_eq.mp hc

theorem idxOf?_eq_none_iff (c : UInt8) : kBase58Digits.idxOf? c = none ↔ c ∉ kBase58Digits :=
  List.idxOf?_eq_none_iff

theorem base58Digit_eq_one_iff {d : Nat} (h : d < 58) : base58Digit d = 49 ↔ d = 0 := by
  constructor
  · intro hone
    have hindex := idxOf?_base58Digit h
    have hzero : kBase58Digits.idxOf? 49 = some 0 := rfl
    rw [hone, hzero] at hindex
    exact (Option.some.inj hindex).symm
  · intro hd
    rw [hd]
    rfl

/-! ## The loops -/

theorem addLeading_eq (mark fill : UInt8) (input out : Bytes) : addLeading mark fill input out =
    List.replicate (input.takeWhile (· = mark)).length fill ++ out := by
  induction input generalizing out with
  | nil => rfl
  | cons c input ih =>
      rw [addLeading]
      by_cases hc : c = mark
      · rw [if_neg (by simpa using hc), ih, List.takeWhile_cons_of_pos (by simpa using hc), List.length_cons,
          List.replicate_succ', List.append_assoc]
        rfl
      · rw [if_pos hc, List.takeWhile_cons_of_neg (by simpa using hc)]
        rfl

theorem foldl_bytes (input : Bytes) :
    input.foldl (fun value byte => value <<< 8 + byte.toNat) 0 = horner 256 (input.map UInt8.toNat) := by
  rw [horner, List.foldl_map]
  congr 1
  funext value byte
  rw [Nat.shiftLeft_eq]

/-- **The loop over the characters** accepts digits only, and adds them to the number. -/
theorem readDigits_ok_iff {input : Bytes} {value n : Nat} : readDigits input value = .ok n ↔
    ∃ ds : List Nat, (∀ d ∈ ds, d < 58) ∧ input = ds.map base58Digit ∧ n = value * 58 ^ ds.length + horner 58 ds := by
  induction input generalizing value with
  | nil =>
      constructor
      · intro h
        cases h
        exact ⟨[], by simp, rfl, by simp⟩
      · rintro ⟨ds, -, hds, hn⟩
        rw [List.map_eq_nil_iff.mp hds.symm] at hn
        simp [readDigits, hn]
  | cons c input ih =>
      rw [readDigits]
      cases hc : kBase58Digits.idxOf? c with
      | none =>
          constructor
          · intro h
            cases h
          · rintro ⟨ds, hlt, hds, -⟩
            cases ds with
            | nil => cases hds
            | cons d ds =>
                rw [List.map_cons, List.cons.injEq] at hds
                rw [hds.1, idxOf?_base58Digit (hlt d List.mem_cons_self)] at hc
                cases hc
      | some pos =>
          obtain ⟨hpos, rfl⟩ := eq_base58Digit hc
          simp only [ih]
          constructor
          · rintro ⟨ds, hlt, rfl, rfl⟩
            refine ⟨pos :: ds, List.forall_mem_cons.mpr ⟨hpos, hlt⟩, rfl, ?_⟩
            rw [horner_cons, List.length_cons, pow_succ]
            ring
          · rintro ⟨ds, hlt, hds, rfl⟩
            cases ds with
            | nil => cases hds
            | cons d ds =>
                rw [List.map_cons, List.cons.injEq] at hds
                obtain ⟨hd, hlt⟩ := List.forall_mem_cons.mp hlt
                have heq : pos = d := by
                  have hidx := idxOf?_base58Digit hd
                  rw [← hds.1, idxOf?_base58Digit hpos] at hidx
                  exact Option.some.inj hidx
                refine ⟨ds, hlt, hds.2, ?_⟩
                rw [heq, horner_cons, List.length_cons, pow_succ]
                ring

theorem readDigits_digits {ds : List Nat} (h : ∀ d ∈ ds, d < 58) :
    readDigits (ds.map base58Digit) 0 = .ok (horner 58 ds) :=
  readDigits_ok_iff.mpr ⟨ds, h, rfl, by rw [Nat.zero_mul, Nat.zero_add]⟩

/-! ## Both directions -/

/-- **Encoding** is the change from base 256 to base 58. -/
theorem encode_eq {input : Bytes} (h : input.length ≤ kMaxInput) :
    encode input = .ok ((recode 256 58 (input.map UInt8.toNat)).map base58Digit) := by
  cases input with
  | nil => simp [encode]
  | cons byte input =>
      rw [encode, if_neg (by simp), if_neg (by omega)]
      simp only [addLeading_eq, foldl_bytes, divLoop_eq, List.append_nil, recode, List.map_append, List.map_replicate,
        leading_toNat]
      rfl

/-- **Decoding** is the change from base 58 to base 256. -/
theorem decode_digits {ds : List Nat} (h : ∀ d ∈ ds, d < 58) :
    decode (ds.map base58Digit) = .ok ((recode 58 256 ds).map UInt8.ofNat) := by
  cases ds with
  | nil => simp [decode]
  | cons d ds =>
      have hzeros := @leading_map UInt8 _ base58Digit 49 (d :: ds) fun x hx => base58Digit_eq_one_iff (h x hx)
      rw [decode, if_neg (by simp), readDigits_digits h]
      simp only [addLeading_eq, hzeros, divLoop_eq, List.append_nil, recode, List.map_append, List.map_replicate]
      rfl

theorem exists_digits {s b : Bytes} (h : decode s = .ok b) :
    ∃ ds : List Nat, (∀ d ∈ ds, d < 58) ∧ s = ds.map base58Digit := by
  cases s with
  | nil => exact ⟨[], by simp, rfl⟩
  | cons c s =>
      rw [decode, if_neg (by simp)] at h
      obtain ⟨n, hread, -⟩ := bind_eq_ok_iff.mp h
      obtain ⟨ds, hlt, hds, -⟩ := readDigits_ok_iff.mp hread
      exact ⟨ds, hlt, hds⟩

theorem decode_encode {b s : Bytes} (hlen : b.length ≤ kMaxInput) (h : encode b = .ok s) : decode s = .ok b := by
  rw [encode_eq hlen, Except.ok.injEq] at h
  rw [← h, decode_digits fun d hd => recode_lt (by decide) hd, recode_recode (by decide) toNat_lt_of_mem_map,
    map_ofNat_toNat]

theorem encode_decode {s b : Bytes} (h : decode s = .ok b) (hlen : b.length ≤ kMaxInput) : encode b = .ok s := by
  obtain ⟨ds, hlt, rfl⟩ := exists_digits h
  rw [decode_digits hlt, Except.ok.injEq] at h
  rw [encode_eq hlen, ← h, map_toNat_ofNat fun d hd => recode_lt (by decide) hd, recode_recode (by decide) hlt]

theorem exists_digits_of_mem {s : Bytes} (h : ∀ c ∈ s, c ∈ kBase58Digits) :
    ∃ ds : List Nat, (∀ d ∈ ds, d < 58) ∧ s = ds.map base58Digit := by
  induction s with
  | nil => exact ⟨[], by simp, rfl⟩
  | cons c s ih =>
      obtain ⟨hc, hs⟩ := List.forall_mem_cons.mp h
      obtain ⟨ds, hlt, rfl⟩ := ih hs
      cases hidx : kBase58Digits.idxOf? c with
      | none => exact absurd hc ((idxOf?_eq_none_iff c).mp hidx)
      | some d =>
          obtain ⟨hd, rfl⟩ := eq_base58Digit hidx
          exact ⟨d :: ds, List.forall_mem_cons.mpr ⟨hd, hlt⟩, rfl⟩

theorem decode_error_iff (s : Bytes) : (∃ e, decode s = .error e) ↔ ∃ c ∈ s, c ∉ kBase58Digits := by
  constructor
  · rintro ⟨e, he⟩
    by_contra hnone
    obtain ⟨ds, hlt, rfl⟩ := exists_digits_of_mem fun c hc => by_contra fun hbad => hnone ⟨c, hc, hbad⟩
    rw [decode_digits hlt] at he
    cases he
  · rintro ⟨c, hc, hbad⟩
    cases hdecode : decode s with
    | error e => exact ⟨e, rfl⟩
    | ok b =>
        obtain ⟨ds, hlt, rfl⟩ := exists_digits hdecode
        obtain ⟨d, hd, rfl⟩ := List.mem_map.mp hc
        rw [← idxOf?_eq_none_iff, idxOf?_base58Digit (hlt d hd)] at hbad
        cases hbad

theorem leading_encode {b s : Bytes} (hlen : b.length ≤ kMaxInput) (h : encode b = .ok s) :
    (s.takeWhile (· = 49)).length = (b.takeWhile (· = 0)).length := by
  rw [encode_eq hlen, Except.ok.injEq] at h
  rw [← h, leading_map fun d hd => base58Digit_eq_one_iff (recode_lt (by decide) hd), leading_recode, leading_toNat]

/-- **Base58.** Byte strings of at most 1024 bytes and the strings over the alphabet that stand for them correspond
to each other; a string is refused for a character outside the alphabet only; the zero bytes in front are the `1`s in
front. -/
theorem base58_codec :
    (∀ b : Bytes, b.length ≤ 1024 → ∃ s, encode b = .ok s ∧ decode s = .ok b ∧
      (s.takeWhile (· = 49)).length = (b.takeWhile (· = 0)).length) ∧
    (∀ s : Bytes, (∀ c ∈ s, c ∈ kBase58Digits) → ∃ b, decode s = .ok b ∧ (b.length ≤ 1024 → encode b = .ok s)) ∧
    ∀ s : Bytes, (∃ e, decode s = .error e) ↔ ∃ c ∈ s, c ∉ kBase58Digits := by
  refine ⟨fun b hlen => ?_, fun s hs => ?_, decode_error_iff⟩
  · have hencode := encode_eq hlen
    exact ⟨_, hencode, decode_encode hlen hencode, leading_encode hlen hencode⟩
  · obtain ⟨ds, hlt, rfl⟩ := exists_digits_of_mem hs
    exact ⟨_, decode_digits hlt, encode_decode (decode_digits hlt)⟩

example : encode [0, 0, 1, 2] = .ok (ascii "115T") := by decide +kernel

/-! ## With a checksum -/

section Check
variable (sha256 : Bytes → Octets 32)

def withChecksum (input : Bytes) : Bytes := input ++ (sha256 input).val.take kCheckSumLength

theorem length_withChecksum (input : Bytes) : (withChecksum sha256 input).length = input.length + kCheckSumLength := by
  rw [withChecksum, List.length_append, List.length_take, (sha256 input).property]
  rfl

/-- The last four bytes are the checksum of the others. -/
def Checked (decoded : Bytes) : Prop :=
  kCheckSumLength ≤ decoded.length ∧ decoded.drop (decoded.length - kCheckSumLength) <+:
    (sha256 (decoded.take (decoded.length - kCheckSumLength))).val

theorem checked_withChecksum (b : Bytes) : Checked sha256 (withChecksum sha256 b) := by
  have hlen := length_withChecksum sha256 b
  refine ⟨by omega, ?_⟩
  rw [hlen, Nat.add_sub_cancel, withChecksum, List.drop_left, List.take_left]
  exact List.take_prefix _ _

theorem Checked.eq_withChecksum {decoded : Bytes} (h : Checked sha256 decoded) :
    decoded = withChecksum sha256 (decoded.take (decoded.length - kCheckSumLength)) := by
  obtain ⟨hlen, hfront⟩ := h
  rw [List.prefix_iff_eq_take, List.length_drop, Nat.sub_sub_self hlen] at hfront
  rw [withChecksum, ← hfront, List.take_append_drop]

theorem decodeCheck_of_decode {s decoded b : Bytes} (h : decode s = .ok decoded) : decodeCheck sha256 s = .ok b ↔
    Checked sha256 decoded ∧ decoded.take (decoded.length - kCheckSumLength) = b := by
  rw [decodeCheck, h]
  unfold Checked
  simp only [bind, Except.bind, throw, throwThe, MonadExceptOf.throw, pure, Except.pure, Bool.not_eq_eq_eq_not,
    Bool.not_true, Bool.eq_false_iff, ne_eq, List.isPrefixOf_iff_prefix]
  split_ifs with hlen hfront
  · simp [Nat.not_le.mpr hlen]
  · simp [Nat.not_lt.mp hlen, hfront]
  · simp [hfront]

/-- **`decode_check`** takes off the checksum of what it returns. -/
theorem decodeCheck_ok_iff {s b : Bytes} : decodeCheck sha256 s = .ok b ↔ decode s = .ok (withChecksum sha256 b) := by
  cases hdecode : decode s with
  | error e =>
      rw [decodeCheck, hdecode]
      exact iff_of_false (fun h => by cases h) (fun h => by cases h)
  | ok decoded =>
      rw [decodeCheck_of_decode sha256 hdecode, Except.ok.injEq]
      constructor
      · rintro ⟨hchecked, rfl⟩
        exact hchecked.eq_withChecksum
      · rintro rfl
        refine ⟨checked_withChecksum sha256 b, ?_⟩
        rw [length_withChecksum, Nat.add_sub_cancel, withChecksum, List.take_left]

/-- **Base58 with a checksum**, for payloads of at most 1020 bytes: each has a text, the text stands for it, and it is
the only one that does. -/
theorem base58_check :
    (∀ b : Bytes, b.length ≤ 1020 → ∃ s, encodeCheck sha256 b = .ok s ∧ decodeCheck sha256 s = .ok b) ∧
    ∀ s b : Bytes, b.length ≤ 1020 → (decodeCheck sha256 s = .ok b ↔ encodeCheck sha256 b = .ok s) := by
  have hroom : ∀ b : Bytes, b.length ≤ 1020 → (withChecksum sha256 b).length ≤ kMaxInput := by
    intro b hb
    rw [length_withChecksum, kCheckSumLength, kMaxInput]
    omega
  have hiff : ∀ s b : Bytes, b.length ≤ 1020 → (decodeCheck sha256 s = .ok b ↔ encodeCheck sha256 b = .ok s) := by
    intro s b hb
    rw [decodeCheck_ok_iff]
    exact ⟨fun h => encode_decode h (hroom b hb), decode_encode (hroom b hb)⟩
  refine ⟨fun b hb => ?_, hiff⟩
  have hencode : encodeCheck sha256 b = _ := encode_eq (hroom b hb)
  exact ⟨_, hencode, (hiff _ b hb).mpr hencode⟩

end Check

end Znode.Core.Base58
