import Mathlib
import Znode.Core.Hex
import Znode.Lib.BigEndian
import Znode.Lib.Text

/-!
# Hexadecimal text of integers

`enc::hex::encode` of unsigned integers and of the wide integers of the number library.

* `zerolessView` : the bytes without the zeros in front, which are the significant bytes of their number
  (`zerolessView_eq`);
* `encodeBytes` : what both functions do with the bytes, most significant first. The text is that of the significant
  bytes, or of one zero byte (`encodeBytes_eq`);
* `encode_integers` : even length, the bytes of the number, and no zero byte in front.
-/

namespace Znode.Core.Hex
open Znode.Lib

def zerolessView (data : Bytes) : Bytes := data.dropWhile (· = 0x0)

/-- The end of both functions, with the bytes most significant first. -/
def encodeBytes (bytes : Bytes) (withPrefix : Bool) : Bytes :=
  let hexed := encode (zerolessView bytes) withPrefix
  if hexed.length = (if withPrefix then 2 else 0) then hexed ++ ascii "00" else hexed

/-- The bytes of an unsigned integer, copied from memory with the least significant first and reversed. -/
def copiedBytes {size : Nat} (value : BitVec (8 * size)) : Bytes :=
  let bytes := leBytes size value.toNat
  if bytes.length ≠ 1 then bytes.reverse else bytes

/-- `encode` of an unsigned integer of `size` bytes. -/
def encodeUnsigned {size : Nat} (value : BitVec (8 * size)) (withPrefix : Bool := false) : Bytes :=
  encodeBytes (copiedBytes value) withPrefix

/-- `encode` of a `uint128_t` or `uint256_t`; `exportBits` is what `export_bits` appends for a value. -/
def encodeBigUnsigned (exportBits : Nat → Bytes) {bits : Nat} (value : BitVec bits) (withPrefix : Bool := false) :
    Bytes :=
  encodeBytes (exportBits value.toNat) withPrefix

/-- `export_bits` appends the bytes of the value, most significant first, without a zero byte in front unless the
value is zero. -/
def ExportsBits (exportBits : Nat → Bytes) : Prop :=
  ∀ v, beVal (exportBits v) = v ∧ (v ≠ 0 → (exportBits v).head? ≠ some 0)

/-! ## The text -/

theorem zerolessView_eq (data : Bytes) : zerolessView data = significant (beVal data) :=
  dropWhile_zero_eq data

theorem encodeBytes_eq (bytes : Bytes) (withPrefix : Bool) : encodeBytes bytes withPrefix =
    encode (if beVal bytes = 0 then [0] else significant (beVal bytes)) withPrefix := by
  simp only [encodeBytes, zerolessView_eq, length_encode]
  by_cases hzero : beVal bytes = 0
  · rw [hzero, significant_eq_nil_iff.mpr rfl]
    cases withPrefix <;> rfl
  · have hlen : 0 < (significant (beVal bytes)).length :=
      List.length_pos_iff.mpr fun hnil => hzero (significant_eq_nil_iff.mp hnil)
    rw [if_neg (by omega), if_neg hzero]

/-- `s` is the hexadecimal text of `v`, after `0x` if there is a prefix. -/
structure IsHexOf (v : Nat) (withPrefix : Bool) (s : Bytes) : Prop where
  even : s.length % 2 = 0
  marked : (if withPrefix then ascii "0x" else []) <+: s
  decodes : ∃ bytes, decode s = .ok bytes ∧ beVal bytes = v ∧ (v ≠ 0 → bytes.head? ≠ some 0)
  zero : v = 0 → s = (if withPrefix then ascii "0x" else []) ++ ascii "00"

theorem isHexOf_encodeBytes (bytes : Bytes) (withPrefix : Bool) :
    IsHexOf (beVal bytes) withPrefix (encodeBytes bytes withPrefix) := by
  rw [encodeBytes_eq]
  constructor
  · rw [length_encode]
    cases withPrefix <;> simp
  · exact List.prefix_append _ _
  · refine ⟨_, decode_encode _ _, ?_, ?_⟩
    · split_ifs with hzero
      · rw [hzero]
        rfl
      · exact beVal_significant _
    · intro hzero
      rw [if_neg hzero]
      exact head?_significant _
  · intro hzero
    rw [if_pos hzero]
    cases withPrefix <;> rfl

theorem beVal_copiedBytes {size : Nat} (value : BitVec (8 * size)) : beVal (copiedBytes value) = value.toNat := by
  have hlt : value.toNat < 256 ^ size := by
    have h := value.isLt
    rwa [Nat.pow_mul] at h
  rw [copiedBytes]
  split_ifs with hone
  · rw [beVal, List.reverse_reverse, leVal_leBytes hlt]
  · -- one byte is its own reversal
    obtain ⟨byte, hbyte⟩ := List.length_eq_one_iff.mp (not_not.mp hone)
    have hval := leVal_leBytes hlt
    rw [hbyte] at hval ⊢
    exact hval

/-- **Integers in hexadecimal.** Of every unsigned integer of whole bytes, and of every wide integer whose bytes
`export_bits` gives, the text has an even number of digits, stands for the integer, and has no zero byte in front but
for zero, which is `00`. -/
theorem encode_integers {exportBits : Nat → Bytes} (hexport : ExportsBits exportBits) :
    (∀ (size : Nat) (value : BitVec (8 * size)) (withPrefix : Bool),
      IsHexOf value.toNat withPrefix (encodeUnsigned value withPrefix)) ∧
    ∀ (bits : Nat) (value : BitVec bits) (withPrefix : Bool),
      IsHexOf value.toNat withPrefix (encodeBigUnsigned exportBits value withPrefix) := by
  constructor
  · intro size value withPrefix
    have h := isHexOf_encodeBytes (copiedBytes value) withPrefix
    rwa [beVal_copiedBytes] at h
  · intro bits value withPrefix
    have h := isHexOf_encodeBytes (exportBits value.toNat) withPrefix
    rwa [(hexport value.toNat).1] at h

/-- One zero byte for zero, the significant bytes otherwise. -/
def exportSignificant (v : Nat) : Bytes := if v = 0 then [0] else significant v

theorem exportsBits_significant : ExportsBits exportSignificant := by
  intro v
  unfold exportSignificant
  split_ifs with hzero
  · exact ⟨hzero.symm, fun h => absurd hzero h⟩
  · exact ⟨beVal_significant v, fun _ => head?_significant v⟩

theorem encode_integers_wide :
    encodeBigUnsigned exportSignificant (0x1234#128) true = ascii "0x1234" ∧
      IsHexOf 0x1234 true (ascii "0x1234") := by
  have htext : encodeBigUnsigned exportSignificant (0x1234#128) true = ascii "0x1234" := by decide +kernel
  refine ⟨htext, ?_⟩
  rw [← htext]
  exact (encode_integers exportsBits_significant).2 128 0x1234#128 true

end Znode.Core.Hex
