import Mathlib
import Znode.Core.Hex
import Znode.Lib.Text

/-!
# The text form of a hash

A `Hash` is an array of `kSize` bytes. Its text form shows them in their order or in the reverse one, and `reverse_hex`
turns one text into the other.

* `Hash.ofView` : the constructor, which aligns its input to the right;
* `Hash.fromHex`, `Hash.toHex`, `Hex.reverseHex` : the functions of the source;
* `Hex.pairsBack` : the loop of `reverse_hex`. On the halves of bytes it reverses the bytes (`pairsBack_nibbles`);
* `hash_text` : the round trip, the canonical text, and the two reversals.
-/

namespace Znode.Core
open Znode.Lib

namespace Hex

/-- The loop of `reverse_hex` and what follows it, on the characters from the last one to the first: two characters at
a time, and a character that is left alone gets a zero in front. -/
def pairsBack {α : Type} (zero : α) : List α → List α
  | last :: previous :: input => previous :: last :: pairsBack zero input
  | [back] => [zero, back]
  | [] => []

def reverseHex (input : Bytes) : Bytes :=
  if input = [] then []
  else if hasPrefix input then ascii "0x" ++ pairsBack 48 (input.drop 2).reverse
  else pairsBack 48 input.reverse

end Hex

abbrev Hash (kSize : Nat) := Octets kSize

namespace Hash
variable {kSize : Nat}

/-- The constructor from a view. Too many bytes are disregarded. For an empty view the address behind the array is
formed and nothing is copied. -/
def ofView (kSize : Nat) (init : Bytes) : Hash kSize :=
  if h : init.length > kSize then Octets.zero kSize
  else ⟨List.replicate (kSize - init.length) 0 ++ init, by simp; omega⟩

def fromHex (kSize : Nat) (input : Bytes) (reverse : Bool := false) : Except Hex.EncError (Hash kSize) :=
  (Hex.decode input).map fun parsedBytes => ofView kSize (if reverse then parsedBytes.reverse else parsedBytes)

def toHex (h : Hash kSize) (reverse : Bool := false) (withPrefix : Bool := false) : Bytes :=
  Hex.encode (if reverse then h.val.reverse else h.val) withPrefix

end Hash

/-! ## Two characters at a time -/

namespace Hex
variable {α β : Type} {zero : α}

theorem map_pairsBack (f : α → β) (zero : α) (l : List α) :
    (pairsBack zero l).map f = pairsBack (f zero) (l.map f) := by
  induction l using pairsBack.induct with
  | case1 last previous l ih => simp [pairsBack, ih]
  | case2 back => rfl
  | case3 => rfl

theorem pairsBack_append_zero (zero : α) {l : List α} (hodd : l.length % 2 = 1) :
    pairsBack zero (l ++ [zero]) = pairsBack zero l := by
  induction l using pairsBack.induct with
  | case1 last previous l ih =>
      rw [List.length_cons, List.length_cons] at hodd
      simp only [List.cons_append, pairsBack, ih (by omega)]
  | case2 back => rfl
  | case3 => cases hodd

/-- The zero in front of an odd number of elements may be there before. -/
theorem pairsBack_padded (zero : α) (l : List α) :
    pairsBack zero (padded zero l).reverse = pairsBack zero l.reverse := by
  unfold padded
  split_ifs with hodd
  · rw [List.reverse_cons, pairsBack_append_zero zero (by rwa [List.length_reverse])]
  · rfl

theorem pairsBack_append (zero : α) {l : List α} (heven : l.length % 2 = 0) (r : List α) :
    pairsBack zero (l ++ r) = pairsBack zero l ++ pairsBack zero r := by
  induction l using pairsBack.induct with
  | case1 last previous l ih =>
      rw [List.length_cons, List.length_cons] at heven
      simp only [List.cons_append, pairsBack, ih (by omega)]
  | case2 back => cases heven
  | case3 => rfl

theorem length_pairsBack (zero : α) (l : List α) : (pairsBack zero l).length % 2 = 0 := by
  induction l using pairsBack.induct with
  | case1 last previous l ih =>
      rw [pairsBack, List.length_cons, List.length_cons]
      omega
  | case2 back => exact Nat.mod_self 2
  | case3 => rfl

theorem pairsBack_nibbles (bytes : Bytes) : pairsBack 0 (nibbles bytes).reverse = nibbles bytes.reverse := by
  induction bytes with
  | nil => rfl
  | cons b bytes ih =>
      have hsplit : nibbles (bytes.reverse ++ [b]) = nibbles bytes.reverse ++ nibbles [b] := List.flatMap_append
      have heven : (nibbles bytes).reverse.length % 2 = 0 := by
        rw [List.length_reverse, length_nibbles]
        omega
      rw [List.reverse_cons, hsplit, ← ih, nibbles_cons, List.reverse_cons, List.reverse_cons, List.append_assoc,
        pairsBack_append 0 heven]
      rfl

/-! ## Reversed texts -/

/-- **The digits in the reverse order** stand for the bytes in the reverse order. -/
theorem decodeDigits_pairsBack {ds out : Bytes} (h : decodeDigits ds = .ok out) :
    decodeDigits (pairsBack 48 ds.reverse) = .ok out.reverse := by
  rw [decodeDigits_ok_iff] at h ⊢
  have heven : ¬ ((pairsBack 48 ds.reverse).map digitOf).length % 2 = 1 := by
    rw [List.length_map, length_pairsBack]
    decide
  calc padded (some 0) ((pairsBack 48 ds.reverse).map digitOf)
    _ = (pairsBack 48 ds.reverse).map digitOf := if_neg heven
    _ = pairsBack (some 0) (ds.map digitOf).reverse := by
        rw [map_pairsBack, List.map_reverse]
        rfl
    _ = pairsBack (some 0) ((nibbles out).map some).reverse := by rw [← pairsBack_padded, h]
    _ = (nibbles out.reverse).map some := by rw [← List.map_reverse, ← map_pairsBack, pairsBack_nibbles]

/-- What stands behind the prefix. -/
def digits (s : Bytes) : Bytes := if hasPrefix s then s.drop 2 else s

theorem decode_eq (s : Bytes) : decode s = decodeDigits (digits s) := rfl

theorem reverseHex_eq (s : Bytes) :
    reverseHex s = (if hasPrefix s then [48, 120] else []) ++ pairsBack 48 (digits s).reverse := by
  unfold reverseHex digits
  split_ifs with hempty hprefixed hprefixed
  · subst hempty
    cases hprefixed
  · subst hempty
    rfl
  · rfl
  · rfl

theorem decode_reverseHex {s out : Bytes} (h : decode s = .ok out) : decode (reverseHex s) = .ok out.reverse := by
  have hreversed := decodeDigits_pairsBack (decode_eq s ▸ h)
  rw [reverseHex_eq, decode_append (marker_mem _) (digits_of_decodeDigits hreversed), hreversed]

theorem hasPrefix_encode (bytes : Bytes) (withPrefix : Bool) : hasPrefix (encode bytes withPrefix) = withPrefix := by
  rw [encode_eq]
  cases withPrefix
  · exact hasPrefix_digits digitOf_of_mem_hexDigits
  · rfl

theorem reverseHex_encode (bytes : Bytes) (withPrefix : Bool) :
    reverseHex (encode bytes withPrefix) = encode bytes.reverse withPrefix := by
  have hdigits : digits (encode bytes withPrefix) = (nibbles bytes).map hexDigit := by
    rw [digits, hasPrefix_encode, encode_eq]
    cases withPrefix <;> rfl
  rw [reverseHex_eq, hasPrefix_encode, hdigits, ← List.map_reverse, encode_eq, ← pairsBack_nibbles, map_pairsBack]
  rfl

/-! ## Padded texts -/

theorem zeros_append_padded {zero : α} {n k : Nat} {l : List α} (hk : k = (l.length + 1) / 2) (hn : k ≤ n) :
    List.replicate (2 * (n - k)) zero ++ padded zero l = l.leftpad (2 * n) zero := by
  unfold padded List.leftpad
  split_ifs with hodd
  · have hzeros : 2 * n - l.length = 2 * (n - k) + 1 := by omega
    rw [hzeros, List.replicate_succ', List.append_assoc, List.singleton_append]
  · have hzeros : 2 * n - l.length = 2 * (n - k) := by omega
    rw [hzeros]

theorem encode_zeros_append (n : Nat) (bytes : Bytes) :
    encode (List.replicate n 0 ++ bytes) = List.replicate (2 * n) 48 ++ encode bytes := by
  induction n with
  | zero => rfl
  | succ n ih =>
      have hcons : encode (0 :: (List.replicate n 0 ++ bytes)) =
          48 :: 48 :: encode (List.replicate n 0 ++ bytes) := rfl
      rw [List.replicate_succ, List.cons_append, hcons, ih, Nat.mul_succ, List.replicate_succ, List.replicate_succ]
      rfl

end Hex

namespace Hash
variable {kSize : Nat}

theorem ofView_of_length (h : Hash kSize) : ofView kSize h.val = h := by
  have hlength := h.property
  unfold ofView
  rw [dif_neg (by omega)]
  apply Subtype.ext
  simp [hlength]

/-- **What was printed is read back.** -/
theorem fromHex_toHex (h : Hash kSize) (reverse withPrefix : Bool) :
    fromHex kSize (h.toHex reverse withPrefix) reverse = .ok h := by
  rw [fromHex, toHex, Hex.decode_encode]
  change Except.ok _ = _
  cases reverse
  · exact congrArg Except.ok (ofView_of_length h)
  · have htwice : (h.val.reverse).reverse = h.val := List.reverse_reverse _
    change Except.ok (ofView kSize (h.val.reverse).reverse) = _
    rw [htwice, ofView_of_length]

/-- **The canonical text**: the digits in lower case, with zeros in front. -/
theorem toHex_fromHex {s out : Bytes} (hout : Hex.decode s = .ok out) (hlength : out.length ≤ kSize) :
    ∃ h, fromHex kSize s = .ok h ∧ h.toHex = ((Hex.digits s).map Hex.toLower).leftpad (2 * kSize) 48 := by
  refine ⟨ofView kSize out, by rw [fromHex, hout]; rfl, ?_⟩
  have hval : (ofView kSize out).val = List.replicate (kSize - out.length) 0 ++ out := by
    rw [ofView, dif_neg (by omega)]
  have hdecode : Hex.decodeDigits (Hex.digits s) = .ok out := hout
  change Hex.encode (ofView kSize out).val = _
  rw [hval, Hex.encode_zeros_append, Hex.encode_of_decodeDigits hdecode]
  exact Hex.zeros_append_padded (by rw [List.length_map, Hex.length_of_decodeDigits hdecode]) hlength

/-- **The text form of a hash.** -/
theorem hash_text (kSize : Nat) :
    (∀ (h : Hash kSize) (reverse withPrefix : Bool), fromHex kSize (h.toHex reverse withPrefix) reverse = .ok h) ∧
    (∀ s out, Hex.decode s = .ok out → out.length ≤ kSize →
      ∃ h, fromHex kSize s = .ok h ∧ h.toHex = ((Hex.digits s).map Hex.toLower).leftpad (2 * kSize) 48) ∧
    (∀ s out, Hex.decode s = .ok out → Hex.decode (Hex.reverseHex s) = .ok out.reverse) ∧
    ∀ (h : Hash kSize) (withPrefix : Bool), Hex.reverseHex (h.toHex false withPrefix) = h.toHex true withPrefix := by
  refine ⟨fromHex_toHex, ?_, ?_, ?_⟩
  · intro s out hout hlength
    exact toHex_fromHex hout hlength
  · intro s out hout
    exact Hex.decode_reverseHex hout
  · intro h withPrefix
    exact Hex.reverseHex_encode h.val withPrefix

end Hash

end Znode.Core
